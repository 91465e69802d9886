/-!
# Offsets of fields

The offset of a field within a value is accepted if the field lies within the value and the offset
suits the alignment of the field; the first is tested first.
-/

namespace CodecForge.Wire

/-- The size and the alignment of a type. -/
structure Layout where
  size : Nat
  align : Nat
  deriving DecidableEq, Repr

/-- Why an offset is refused. -/
inductive OffsetFault where
  | outOfBounds
  | misaligned
  deriving DecidableEq, Repr

/-- The wording of the reason. -/
def OffsetFault.message : OffsetFault → String
  | .outOfBounds => "field extends past the end of its declaring type"
  | .misaligned => "offset is misaligned for the field type"

/-- The wording for a field of a type. -/
def OffsetFault.fieldMessage (f : OffsetFault) (declaring field : String) : String :=
  s!"invalid offset for field {declaring}::{field}: {f.message}"

/-- An offset that was accepted. -/
structure FieldOffset where
  offset : Nat
  deriving DecidableEq, Repr

namespace FieldOffset

/-- The field lies within the value, and its end is a number of 64 bits. -/
def inBounds (outer inner : Layout) (offset : Nat) : Bool :=
  offset + inner.size < UInt64.size && offset + inner.size ≤ outer.size

/-- Accepts the offset of a field of layout `inner` in a value of layout `outer`. -/
def of (outer inner : Layout) (offset : Nat) : Except OffsetFault FieldOffset :=
  if !inBounds outer inner offset then .error .outOfBounds
  else if offset % inner.align ≠ 0 then .error .misaligned
  else .ok ⟨offset⟩

/-- The address of the field of a value. -/
def address (f : FieldOffset) (base : Nat) : Nat := (base + f.offset) % UInt64.size

/-- An offset as it is shown. -/
def describe (f : FieldOffset) : String := s!"FieldOffset \x7b offset: {f.offset} \x7d"

end FieldOffset

end CodecForge.Wire
