import CodecForge.Dispatch.Registry
import CodecForge.Sample.Catalogue

/-!
# The codecs of the samples

The samples contain one another, so their codecs are given up to a depth of nesting: `codecsTo n`
reaches `n` declared types deep.  A value is no deeper than its size; and of the types that a
reader passes through without taking a byte none is met twice, so the bytes that are left and the
number of samples bound the depth of reading.
-/

namespace CodecForge.Sample

open CodecForge.Wire CodecForge.Dispatch

/-- Every sample with its codec. -/
def prepared : List Prepared := all.filterMap Specimen.prepare?

/-- The sample of the given name. -/
def find? (name : String) : Option Prepared := prepared.find? fun p => p.name == name

/-- The codecs of the samples up to the given depth of nesting. -/
def codecsTo (modulePath : String) : Nat → Codecs
  | 0 => Codecs.none
  | n + 1 => {
    encode := fun name v =>
      match find? name with
      | some p => (p.codec modulePath (codecsTo modulePath n)).encode v none
      | none => pure ()
    decode := fun name =>
      match find? name with
      | some p => (p.codec modulePath (codecsTo modulePath n)).decode none
      | none => pure .unit }

mutual

/-- How many values a value is made of. -/
def weight : Value → Nat
  | .list elems => 1 + weights elems
  | .option (some v) => 1 + weight v
  | .map entries => 1 + entryWeights entries
  | .record fields => 1 + fieldWeights fields
  | _ => 1

/-- How many values the values of a list are made of. -/
def weights : List Value → Nat
  | [] => 0
  | v :: rest => weight v + weights rest

/-- How many values entries are made of. -/
def entryWeights : List (Value × Value) → Nat
  | [] => 0
  | (k, v) :: rest => weight k + weight v + entryWeights rest

/-- How many values fields are made of. -/
def fieldWeights : List (String × Value) → Nat
  | [] => 0
  | (_, v) :: rest => weight v + fieldWeights rest

end

/-- The depth that suffices for a value. -/
def depthOfValue (v : Value) : Nat := weight v + 1

/-- The depth that suffices for reading an input. -/
def depthOfInput (input : Input) : Nat := (input.remaining + 1) * (prepared.length + 1)

/-- Writes a value of a type that is made of samples. -/
def encodeAs (modulePath : String) (t : WireType) (v : Value) : Writer Unit :=
  encode (codecsTo modulePath (depthOfValue v)) t v

/-- Reads a value of a type that is made of samples. -/
def decodeAs (modulePath : String) (t : WireType) : Reader Value := do
  decode (codecsTo modulePath (depthOfInput (← get))) t

/-- The codec of a sample as a whole. -/
def codecOf (modulePath : String) (p : Prepared) : ObjectCodec :=
  let inner := p.codec modulePath Codecs.none
  { inner with
    encode := fun v dependency =>
      (p.codec modulePath (codecsTo modulePath (depthOfValue v))).encode v dependency
    decode := fun dependency => do
      (p.codec modulePath (codecsTo modulePath (depthOfInput (← get)))).decode dependency }

/-! ### Bases -/

/-- The base of the given name. -/
def findBase? (name : String) : Option Base := bases.find? fun b => b.name == name

namespace Base

/-- The type that values of a base have. -/
def typeName (b : Base) (modulePath : String) : String := "dyn " ++ modulePath ++ "::" ++ b.name

/-- The name that the codec of a base reports. -/
def reportedName (b : Base) (modulePath : String) : String :=
  b.qualifiedName.getD (modulePath ++ "::" ++ b.name)

/-- The dependency that the codec of a base hands on: one of its own type. -/
def handedOn (b : Base) (modulePath : String) (dependency : Option Typed) : Option Typed :=
  dependency.filter fun d => b.dependency.any fun name => d.type == modulePath ++ "::" ++ name

end Base

end CodecForge.Sample
