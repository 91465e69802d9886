/-!
# Bytes of numbers

Numbers as bytes, the lowest first, and whole numbers in two's complement.
-/

namespace CodecForge.Wire

abbrev Bytes := List UInt8

/-- The lowest `n` bytes of a number, the lowest first. -/
def littleEndian : Nat → Nat → Bytes
  | 0, _ => []
  | n + 1, x => UInt8.ofNat (x % 256) :: littleEndian n (x / 256)

/-- The number that bytes spell, the lowest first. -/
def ofLittleEndian : Bytes → Nat
  | [] => 0
  | b :: rest => b.toNat + 256 * ofLittleEndian rest

@[simp] theorem length_littleEndian (n x : Nat) : (littleEndian n x).length = n := by
  induction n generalizing x with
  | zero => rfl
  | succ n ih => simp [littleEndian, ih]

/-- The widths of numbers. -/
inductive Width where
  | w8
  | w16
  | w32
  | w64
  deriving DecidableEq, Repr

namespace Width

/-- The bytes of a number. -/
def bytes : Width → Nat
  | w8 => 1
  | w16 => 2
  | w32 => 4
  | w64 => 8

/-- One more than the greatest number without sign. -/
def bound : Width → Nat
  | .w8 => UInt8.size
  | .w16 => UInt16.size
  | .w32 => UInt32.size
  | .w64 => UInt64.size

end Width

/-- The bits of a whole number in two's complement. -/
def bitsOfInt (w : Width) (n : Int) : Nat := (n % (w.bound : Int)).toNat

/-- The whole number with the given bits. -/
def intOfBits (signed : Bool) (w : Width) (bits : Nat) : Int :=
  if signed && w.bound ≤ 2 * bits then (bits : Int) - w.bound else bits

end CodecForge.Wire
