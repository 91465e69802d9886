import CodecForge.Schema.TypeDecl

/-!
# Strategies

The ways of turning values of a type into bytes and back, each with the tag that names it.
-/

namespace CodecForge.Schema

/-- How the codec of a type works. -/
inductive Strategy where
  /-- The bytes are the arguments of a function that makes the value. -/
  | instantiator
  /-- The bytes are the public fields, assigned to a default value. -/
  | publicFields
  /-- The codec of the value's own type is looked up in a registry. -/
  | polymorphic
  /-- There is one value, and no bytes. -/
  | singleton
  deriving DecidableEq, Repr

namespace Strategy

/-- Every strategy. -/
def all : List Strategy := [.instantiator, .publicFields, .polymorphic, .singleton]

/-- The tag of a strategy. -/
def tag : Strategy → String
  | .instantiator => "instantiator"
  | .publicFields => "public_fields"
  | .polymorphic => "polymorphic"
  | .singleton => "singleton"

/-- The strategy with a tag. -/
def ofTag? (tag : String) : Option Strategy := all.find? fun s => s.tag == tag

theorem ofTag?_tag (s : Strategy) : ofTag? s.tag = some s := by
  cases s <;> rfl

end Strategy

/-- A type for which a codec is wanted, and how it is to work. -/
structure Request where
  strategy : Strategy := .instantiator
  decl : TypeDecl
  deriving DecidableEq, Repr

end CodecForge.Schema
