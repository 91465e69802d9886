import CodecForge.Wire.Utf8

/-!
# Discriminators

The tag of a type is a 32-bit hash of the bytes of its name: each byte is mixed into the state by
exclusive or, and the state is then multiplied by an odd prime.
-/

namespace CodecForge.Wire

/-- The state before any byte. -/
def hashBasis : UInt32 := 2166136261

/-- The factor of each step. -/
def hashPrime : UInt32 := 16777619

/-- Mixes one byte into the state. -/
def hashStep (state : UInt32) (b : UInt8) : UInt32 := (state ^^^ b.toUInt32) * hashPrime

/-- The hash of bytes. -/
def hashBytes (bytes : Bytes) : UInt32 := bytes.foldl hashStep hashBasis

/-- The tag of the type of the given name. -/
def discriminator (name : String) : UInt32 := hashBytes (encodeUtf8 name)

end CodecForge.Wire
