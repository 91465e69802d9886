import CodecForge.Wire.Bytes

/-!
# Text as bytes

Text in UTF-8.  `decodeUtf8` refuses bytes that are no text with the place and the extent of the
first sequence that is none: the sequence is cut short by the end of the bytes, or it ends before
the first byte that does not go on with it.
-/

namespace CodecForge.Wire

/-- The bytes of a text. -/
def encodeUtf8 (s : String) : Bytes := s.toList.flatMap String.utf8EncodeChar

/-- Where bytes are no text. -/
structure Utf8Fault where
  /-- The bytes before it are text. -/
  index : Nat
  /-- The bytes of the refused sequence; there are none if the bytes end within it. -/
  length : Option Nat
  deriving DecidableEq, Repr

/-- The wording of the fault. -/
def Utf8Fault.message (f : Utf8Fault) : String :=
  match f.length with
  | some n => s!"invalid utf-8 sequence of {n} bytes from index {f.index}"
  | none => s!"incomplete utf-8 byte sequence from index {f.index}"

/-- The first byte of a sequence: how many bytes follow it, the least and the greatest value of the
next one, and the bits that it gives. -/
def leadByte (b : UInt8) : Option (Nat × UInt8 × UInt8 × Nat) :=
  let n := b.toNat
  if n < 0x80 then some (0, 0x80, 0xbf, n)
  else if n < 0xc2 then none
  else if n < 0xe0 then some (1, 0x80, 0xbf, n - 0xc0)
  else if n = 0xe0 then some (2, 0xa0, 0xbf, 0)
  else if n = 0xed then some (2, 0x80, 0x9f, 0xd)
  else if n < 0xf0 then some (2, 0x80, 0xbf, n - 0xe0)
  else if n = 0xf0 then some (3, 0x90, 0xbf, 0)
  else if n < 0xf4 then some (3, 0x80, 0xbf, n - 0xf0)
  else if n = 0xf4 then some (3, 0x80, 0x8f, 4)
  else none

/-- Reads the bytes that go on with a sequence of which `seen` bytes are read and whose bits are
`code`: all bits and what follows, or the extent of the refused sequence. -/
def readTail (seen code : Nat) : Nat → UInt8 → UInt8 → Bytes → Except (Option Nat) (Nat × Bytes)
  | 0, _, _, rest => .ok (code, rest)
  | _ + 1, _, _, [] => .error none
  | n + 1, low, high, b :: rest =>
    if low ≤ b ∧ b ≤ high then
      readTail (seen + 1) (64 * code + (b.toNat - 0x80)) n 0x80 0xbf rest
    else .error (some seen)

/-- Reads one character: the character and what follows, or the extent of the refused sequence. -/
def readChar (b : UInt8) (rest : Bytes) : Except (Option Nat) (Char × Bytes) :=
  match leadByte b with
  | none => .error (some 1)
  | some (n, low, high, bits) => (readTail 1 bits n low high rest).map fun (code, rest') =>
    (Char.ofNat code, rest')

/-- The characters that at most `fuel` bytes spell, of which the first has the given index. -/
def decodeFor (index : Nat) : Nat → Bytes → Except Utf8Fault (List Char)
  | _, [] => .ok []
  | 0, _ :: _ => .ok []
  | fuel + 1, b :: rest =>
    match readChar b rest with
    | .error length => .error ⟨index, length⟩
    | .ok (c, rest') =>
      (decodeFor (index + (rest.length + 1 - rest'.length)) fuel rest').map (c :: ·)

/-- The text that bytes spell.  Each character takes a byte at least. -/
def decodeUtf8 (bytes : Bytes) : Except Utf8Fault String :=
  (decodeFor 0 bytes.length bytes).map String.ofList

end CodecForge.Wire
