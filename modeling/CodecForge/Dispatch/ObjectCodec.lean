import CodecForge.Wire.Reader
import CodecForge.Wire.Value
import CodecForge.Wire.Writer

/-!
# Codecs as values

The codec of one type as it runs: the name that it reports, the type whose values it encodes, the
type of its dependency, and its two functions.  Types are known by their names.
-/

namespace CodecForge.Dispatch

open CodecForge.Wire

/-- A value with the name of its type. -/
structure Typed where
  type : String
  value : Value
  deriving Repr

/-- The codec of a type. -/
structure ObjectCodec where
  /-- The name that the codec reports for the type. -/
  typeName : String
  /-- The type whose values it encodes. -/
  encoded : String
  /-- The type of its dependency, if it has one. -/
  dependency : Option String
  encode : Value → Option Value → Writer Unit
  decode : Option Value → Reader Value

namespace ObjectCodec

/-- The dependency that a codec is run with: nothing for a codec without one, and otherwise what is
supplied, if it is of the right type. -/
def dependencyOf (c : ObjectCodec) (supplied : Option Typed) : Except CodecError (Option Value) :=
  match c.dependency, supplied with
  | none, _ => .ok none
  | some _, none => .ok none
  | some expected, some d =>
    if d.type = expected then .ok (some d.value)
    else .error (.dependencyMismatch c.typeName expected)

end ObjectCodec

/-- The outcome of a check as a step of a reader or writer. -/
def ofExcept {σ α : Type} : Except CodecError α → EStateM CodecError σ α
  | .ok a => pure a
  | .error e => throw e

end CodecForge.Dispatch
