import CodecForge.Wire.Reader
import CodecForge.Wire.Value
import CodecForge.Wire.WireType
import CodecForge.Wire.Writer

/-!
# Values as bytes

The form of the values of each type: numbers in their width, text and lists with their length in
front, optional values behind a truth value, and arrays and tuples as their parts.  `encode` and
`decode` are given the codecs of the declared types.
-/

namespace CodecForge.Wire

/-- The codecs of the declared types, by their names. -/
structure Codecs where
  encode : String → Value → Writer Unit
  decode : String → Reader Value

/-- No declared type has a codec: there is nothing to write, and reading gives the unit. -/
def Codecs.none : Codecs where
  encode _ _ := pure ()
  decode _ := pure .unit

variable (codecs : Codecs)

mutual

/-- Writes a value of the given type.  Values of other types have no form, and nothing is written
for them. -/
def encode : WireType → Value → Writer Unit
  | .bool, .bool b => Writer.bool b
  | .integer _ w, .integer n => Writer.integer w n
  | .float w, .float bits => Writer.bits w bits
  | .text, .text s => Writer.text s
  | .list t, .list elems => do
    Writer.length elems.length
    elems.forM (encode t)
  | .array t _, .list elems => elems.forM (encode t)
  | .option _, .option none => Writer.bool false
  | .option t, .option (some v) => do
    Writer.bool true
    encode t v
  | .boxed t, v => encode t v
  | .tuple ts, .list elems => encodeTuple ts elems
  | .orderedMap k v, .map entries => do
    Writer.length entries.length
    entries.forM fun e => do
      encode k e.1
      encode v e.2
  | .hashMap k v, .map entries => do
    Writer.length entries.length
    entries.forM fun e => do
      encode k e.1
      encode v e.2
  | .named name, v => codecs.encode name v
  | _, _ => pure ()

/-- Writes the parts of a tuple. -/
def encodeTuple : List WireType → List Value → Writer Unit
  | t :: ts, v :: vs => do
    encode t v
    encodeTuple ts vs
  | _, _ => pure ()

end

/-- Reads the given number of values. -/
def decodeMany {α : Type} (read : Reader α) : Nat → Reader (List α)
  | 0 => return []
  | n + 1 => return (← read) :: (← decodeMany read n)

/-- The elements as an array of the given length. -/
def asArray (n : Nat) (elems : List Value) : Reader Value :=
  if elems.length = n then return .list elems
  else throw (.invalidData (.arrayLength n elems.length))

mutual

/-- Reads a value of the given type. -/
def decode : WireType → Reader Value
  | .bool => return .bool (← Reader.bool)
  | .integer signed w => return .integer (← Reader.integer signed w)
  | .float w => return .float (← Reader.bits w)
  | .text => return .text (← Reader.text)
  | .empty => return .unit
  | .list t => return .list (← decodeMany (decode t) (← Reader.count))
  | .array t n => do asArray n (← decodeMany (decode t) n)
  | .option t => do
    if ← Reader.bool then return .option (some (← decode t)) else return .option none
  | .boxed t => decode t
  | .tuple ts => return .list (← decodeTuple ts)
  | .orderedMap k v => do
    let entry : Reader (Value × Value) := return (← decode k, ← decode v)
    return .map (Value.sortedMap (← decodeMany entry (← Reader.count)))
  | .hashMap k v => do
    let entry : Reader (Value × Value) := return (← decode k, ← decode v)
    return .map (Value.hashedMap (← decodeMany entry (← Reader.count)))
  | .named name => codecs.decode name

/-- Reads the parts of a tuple. -/
def decodeTuple : List WireType → Reader (List Value)
  | [] => return []
  | t :: ts => return (← decode t) :: (← decodeTuple ts)

end

end CodecForge.Wire
