import CodecForge.Schema.TypeDecl

/-!
# Faults

Why no codec can be made for a type.  A `Fault` is a cause with the name of the type it is
reported against, and `Fault.message` is its wording.
-/

namespace CodecForge.Plan

open CodecForge.Schema

/-- Why a declared factory is none. -/
inductive FactoryFault where
  | takesReceiver
  | foreignResult (returns : String)
  deriving DecidableEq, Repr

/-- The wording of what is wrong with a factory. -/
def FactoryFault.message : FactoryFault → String
  | .takesReceiver => "it takes a receiver"
  | .foreignResult returns => s!"it returns {returns}, which is not assignable to the type"

/-- Why no codec can be made. -/
inductive Cause where
  | multipleConstructors
  | multipleInstantiators (names : List String)
  | invalidFactory (factory : String) (fault : FactoryFault)
  | multipleDependencyParameters (instantiator : String)
  | conflictingDependency
  | notAbstract
  | singletonWithDependency
  | missingAccessor (field : String)
  | fieldNotFound (field : String)
  | unsupportedFieldType (field type reason : String)
  | invalidType (text : String)
  deriving DecidableEq, Repr

/-- A cause with the name of the type it is reported against. -/
structure Fault where
  typeName : String
  cause : Cause
  deriving DecidableEq, Repr

/-- The wording of a fault. -/
def Fault.message (f : Fault) : String :=
  let owner := f.typeName
  match f.cause with
  | .multipleConstructors =>
    s!"{owner} has multiple constructors but none is marked as the instantiator"
  | .multipleInstantiators names =>
    s!"{owner} has multiple instantiators marked: " ++ ", ".intercalate names
  | .invalidFactory factory fault =>
    s!"{owner} marks {factory} as an instantiator, but it is not a valid factory: " ++ fault.message
  | .multipleDependencyParameters instantiator =>
    s!"{owner}::{instantiator} has more than one dependency parameter"
  | .conflictingDependency =>
    s!"{owner} has both a dependency parameter and a type-level dependency"
  | .notAbstract => s!"{owner} is not abstract, but the polymorphic strategy was selected"
  | .singletonWithDependency =>
    s!"{owner} declares a dependency, but the singleton strategy was selected"
  | .missingAccessor field => s!"{owner}: no accessor found for parameter {field}"
  | .fieldNotFound field => s!"{owner}: no field with name matching {field}"
  | .unsupportedFieldType field type reason =>
    s!"{owner}: field {field} has unsupported type {type} ({reason})"
  | .invalidType text => s!"{owner}: cannot parse type `{text}`"

/-- The message for a tag that names no strategy. -/
def unknownStrategyMessage (tag : String) : String :=
  s!"unknown strategy '{tag}' (expected instantiator, public_fields, polymorphic or singleton)"

/-- The fault of a type for a cause. -/
def fault (d : TypeDecl) (c : Cause) : Fault := ⟨d.displayName, c⟩

end CodecForge.Plan
