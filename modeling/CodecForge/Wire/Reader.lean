import CodecForge.Wire.CodecError

/-!
# Reading bytes

A `Reader` takes bytes from a buffer at an offset.  A read that would pass the end of the buffer
fails and leaves the offset; bytes that were read and refused stay read.
-/

namespace CodecForge.Wire

/-- A buffer, read up to an offset. -/
structure Input where
  buffer : Bytes
  offset : Nat := 0
  deriving DecidableEq, Repr

namespace Input

/-- How many bytes are left. -/
def remaining (i : Input) : Nat := i.buffer.length - i.offset

/-- No bytes are left. -/
def isAtEnd (i : Input) : Bool := i.buffer.length ≤ i.offset

/-- The next bytes. -/
def next (i : Input) (n : Nat) : Bytes := (i.buffer.drop i.offset).take n

/-- The input behind the next bytes. -/
def advance (i : Input) (n : Nat) : Input := { i with offset := i.offset + n }

/-- The bytes that are left. -/
def rest (i : Input) : Bytes := i.buffer.drop i.offset

end Input

/-- Takes bytes or fails. -/
abbrev Reader (α : Type) := EStateM CodecError Input α

namespace Reader

/-- Offsets are numbers of 64 bits. -/
def fitsOffset (n : Nat) : Bool := n < UInt64.size

/-- Reads the given number of bytes. -/
def bytes (n : Nat) : Reader Bytes := do
  let input ← get
  let stop := input.offset + n
  if fitsOffset stop && stop ≤ input.buffer.length then
    set (input.advance n)
    return input.next n
  else throw (.readFailed input.offset .endOfBuffer)

/-- Reads a number without sign. -/
def bits (w : Width) : Reader Nat := return ofLittleEndian (← bytes w.bytes)

/-- Reads a whole number. -/
def integer (signed : Bool) (w : Width) : Reader Int := return intOfBits signed w (← bits w)

/-- Reads a truth value, which is a byte 0 or 1. -/
def bool : Reader Bool := do
  let offset := (← get).offset
  match ← bits .w8 with
  | 0 => return false
  | 1 => return true
  | other => throw (.invalidData (.boolByte (UInt8.ofNat other) offset))

/-- Reads a length that may not be greater than the number of bytes behind it. -/
def length : Reader Nat := do
  let offset := (← get).offset
  let n ← bits .w32
  if n > (← get).remaining then throw (.readFailed offset (.lengthBeyondEnd n))
  return n

/-- Reads a number of elements; elements may take no bytes, so any number will do. -/
def count : Reader Nat := bits .w32

/-- Reads a text with its length in bytes. -/
def text : Reader String := do
  let data ← bytes (← length)
  match decodeUtf8 data with
  | .ok s => return s
  | .error fault => throw (.invalidData (.text fault))

end Reader

end CodecForge.Wire
