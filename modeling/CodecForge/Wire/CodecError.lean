import CodecForge.Text.Quoted
import CodecForge.Wire.Utf8

/-!
# Failures of codecs

Why a value could not be written or read.  `CodecError.message` is the wording of a failure and
`CodecError.source?` that of the failure it passes on.
-/

namespace CodecForge.Wire

/-- Why there were not enough bytes. -/
inductive ReadFault where
  | endOfBuffer
  /-- A length that is greater than the number of bytes behind it. -/
  | lengthBeyondEnd (length : Nat)
  | other (reason : String)
  deriving DecidableEq, Repr

/-- Why bytes are no value, or a value has no bytes. -/
inductive DataFault where
  /-- A byte that is no truth value. -/
  | boolByte (byte : UInt8) (offset : Nat)
  /-- A length that does not fit its bytes. -/
  | lengthTooGreat (length : Nat)
  | text (fault : Utf8Fault)
  | arrayLength (expected decoded : Nat)
  | other (reason : String)
  deriving DecidableEq, Repr

/-- Why a value could not be written or read. -/
inductive CodecError where
  | readFailed (offset : Nat) (reason : ReadFault)
  | invalidData (reason : DataFault)
  /-- The function that makes the value failed. -/
  | instantiator (typeName cause : String)
  | missingDependency (typeName : String)
  | dependencyMismatch (typeName expected : String)
  | unregisteredType (base : String)
  | unknownDiscriminator (base : String) (tag : UInt32)
  | duplicateRegistration (base typeName : String)
  | typeMismatch (expected found : String)
  deriving DecidableEq, Repr

/-- The wording of the reason. -/
def ReadFault.message : ReadFault → String
  | .endOfBuffer => "unexpected end of buffer"
  | .lengthBeyondEnd length => s!"length prefix {length} exceeds remaining bytes"
  | .other reason => reason

/-- The wording of the reason. -/
def DataFault.message : DataFault → String
  | .boolByte byte offset =>
    s!"invalid bool byte 0x{Text.hexPadded 2 byte.toNat} at offset {offset}"
  | .lengthTooGreat length => s!"length {length} exceeds u32::MAX"
  | .text fault => "invalid UTF-8: " ++ fault.message
  | .arrayLength expected decoded => s!"expected {expected} array elements, decoded {decoded}"
  | .other reason => reason

namespace CodecError

/-- The wording of a failure. -/
def message : CodecError → String
  | .readFailed offset reason => s!"read failed at offset {offset}: " ++ reason.message
  | .invalidData reason => "invalid data: " ++ reason.message
  | .instantiator typeName cause => s!"{typeName} instantiator failed: {cause}"
  | .missingDependency typeName => s!"{typeName} requires a dependency but none was supplied"
  | .dependencyMismatch typeName expected =>
    s!"{typeName} expects a dependency of type {expected}, got a different type"
  | .unregisteredType base => s!"no codec registered for the runtime subtype of {base}"
  | .unknownDiscriminator base tag =>
    s!"unknown type discriminator 0x{Text.hexPadded 8 tag.toNat} for {base} (no codec registered)"
  | .duplicateRegistration base typeName =>
    s!"{typeName} is already registered as a subtype of {base}"
  | .typeMismatch expected found => s!"type mismatch: expected {expected}, found {found}"

/-- The wording of the failure that is passed on. -/
def source? : CodecError → Option String
  | .instantiator _ cause => some cause
  | _ => none

end CodecError

end CodecForge.Wire
