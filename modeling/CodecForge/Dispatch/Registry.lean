import CodecForge.Dispatch.ObjectCodec
import CodecForge.Wire.Discriminator

/-!
# Registries

A registry holds, for each base, the codecs of its subtypes, to be found by the type of a value
and by its discriminator.  A value of a base is written as the discriminator of its own type with
what the codec of that type writes behind it.
-/

namespace CodecForge.Dispatch

open CodecForge.Wire

/-- A registered codec with its discriminator and the base that its values are taken for. -/
structure Entry where
  tag : UInt32
  base : String
  codec : ObjectCodec
  /-- Makes a value of the base of what the codec reads. -/
  upcast : Value → Typed

/-- The codecs of the subtypes of one base. -/
structure BaseTable where
  byType : List (String × Entry) := []
  byTag : List (UInt32 × Entry) := []

/-- The tables of all bases that were ever registered for. -/
structure Registry where
  bases : List (String × BaseTable) := []

namespace BaseTable

/-- The type or the discriminator of the codec is taken. -/
def conflicts (t : BaseTable) (c : ObjectCodec) : Bool :=
  (t.byType.lookup c.encoded).isSome || (t.byTag.lookup (discriminator c.typeName)).isSome

/-- Adds a codec under its type and its discriminator. -/
def add (t : BaseTable) (base : String) (c : ObjectCodec) (upcast : Value → Typed) : BaseTable :=
  let entry : Entry := ⟨discriminator c.typeName, base, c, upcast⟩
  { byType := t.byType ++ [(c.encoded, entry)], byTag := t.byTag ++ [(entry.tag, entry)] }

end BaseTable

namespace Registry

/-- The registry without bases. -/
def empty : Registry := {}

/-- The table of a base; it is empty for a base that has none. -/
def table (r : Registry) (base : String) : BaseTable := (r.bases.lookup base).getD {}

/-- Sets the table of a base. -/
def setTable (r : Registry) (base : String) (t : BaseTable) : Registry :=
  if (r.bases.lookup base).isSome then
    { bases := r.bases.map fun b => if b.1 == base then (base, t) else b }
  else { bases := r.bases ++ [(base, t)] }

/-- Registers the codec of a subtype of a base: the registry after it, in which the base has a table
in any case, and the failure if the type or its discriminator is taken.  A value that the codec
reads is one of the base as it is, unless the registration says otherwise. -/
def register (r : Registry) (base : String) (c : ObjectCodec)
    (upcast : Value → Typed := (⟨c.encoded, ·⟩)) : Registry × Option CodecError :=
  let t := r.table base
  if t.conflicts c then
    (r.setTable base t, some (.duplicateRegistration base c.typeName))
  else (r.setTable base (t.add base c upcast), none)

/-- The codec for values of the given type under a base. -/
def entryForType? (r : Registry) (base type : String) : Option Entry :=
  (r.table base).byType.lookup type

/-- The codec for a discriminator under a base. -/
def entryForTag? (r : Registry) (base : String) (tag : UInt32) : Option Entry :=
  (r.table base).byTag.lookup tag

/-- The name that the codec for values of the given type reports. -/
def lookup? (r : Registry) (base type : String) : Option String :=
  (r.entryForType? base type).map fun e => e.codec.typeName

end Registry

namespace Entry

/-- Writes a value with the registered codec, which has to be one of its type. -/
def encode (e : Entry) (v : Typed) (dependency : Option Typed) : Writer Unit := do
  if v.type ≠ e.codec.encoded then
    throw (.typeMismatch e.codec.encoded "a different runtime type")
  e.codec.encode v.value (← ofExcept (e.codec.dependencyOf dependency))

/-- Reads a value with the registered codec; it has to be taken for a value of the base. -/
def decode (e : Entry) (base : String) (dependency : Option Typed) : Reader Typed := do
  let v ← e.codec.decode (← ofExcept (e.codec.dependencyOf dependency))
  if e.base ≠ base then throw (.typeMismatch base e.codec.typeName)
  return e.upcast v

end Entry

namespace Registry

/-- Writes a value of a base. -/
def encode (r : Registry) (base : String) (v : Typed) (dependency : Option Typed) :
    Writer Unit := do
  match r.entryForType? base v.type with
  | none => throw (.unregisteredType base)
  | some entry =>
    Writer.bits .w32 entry.tag.toNat
    entry.encode v dependency

/-- Reads a value of a base. -/
def decode (r : Registry) (base : String) (dependency : Option Typed) : Reader Typed := do
  let tag := UInt32.ofNat (← Reader.bits .w32)
  match r.entryForTag? base tag with
  | none => throw (.unknownDiscriminator base tag)
  | some entry => entry.decode base dependency

/-- How many bases there are, and how many subtypes in all. -/
def counts (r : Registry) : Nat × Nat :=
  (r.bases.length, r.bases.foldl (fun n b => n + b.2.byTag.length) 0)

/-- The registry on one line. -/
def describe (r : Registry) : String :=
  s!"CodecRegistry \x7b bases: {r.counts.1}, subtypes: {r.counts.2} \x7d"

/-- The registry with a line for each of its numbers. -/
def describeLines (r : Registry) : String :=
  s!"CodecRegistry \x7b\n    bases: {r.counts.1},\n    subtypes: {r.counts.2},\n\x7d"

end Registry

end CodecForge.Dispatch
