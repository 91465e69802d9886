import CodecForge.Wire.CodecError

/-!
# Writing bytes

A `Writer` appends to the bytes written so far.  One that fails leaves what it has appended.
-/

namespace CodecForge.Wire

/-- Appends bytes or fails. -/
abbrev Writer (α : Type) := EStateM CodecError Bytes α

namespace Writer

/-- Appends bytes. -/
def bytes (data : Bytes) : Writer Unit := modify (· ++ data)

/-- Writes a truth value as one byte. -/
def bool (b : Bool) : Writer Unit := bytes [if b then 1 else 0]

/-- Writes a number without sign. -/
def bits (w : Width) (n : Nat) : Writer Unit := bytes (littleEndian w.bytes n)

/-- Writes a whole number. -/
def integer (w : Width) (n : Int) : Writer Unit := bits w (bitsOfInt w n)

/-- Writes a length, which has to fit 32 bits. -/
def length (n : Nat) : Writer Unit :=
  if n < UInt32.size then bits .w32 n else throw (.invalidData (.lengthTooGreat n))

/-- Writes a text with its length in bytes. -/
def text (s : String) : Writer Unit := do
  let data := encodeUtf8 s
  length data.length
  bytes data

end Writer

end CodecForge.Wire
