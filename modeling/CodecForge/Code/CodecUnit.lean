import CodecForge.Code.Body
import CodecForge.Text.IdentifierChar

/-!
# Codec units

The codec of a type: its two bodies, the state that they need, and what else is generated for the
type.  A unit follows from a plan, except where a private field calls for a slot whose name is no
identifier.
-/

namespace CodecForge.Code

open CodecForge.Source CodecForge.Plan

/-- The offset of a field that cannot be named, as a field of the codec. -/
structure Slot where
  name : Ident
  type : Ty
  path : List Ident
  declaring : String
  /-- The parameter that is read through it. -/
  field : String
  deriving Repr

/-- What a codec holds. -/
inductive CodecState where
  | stateless
  | offsets (slots : List Slot)
  | registry
  deriving Repr

/-- The type that a codec encodes, in terms of the declared type. -/
inductive Encoded where
  | itself (type : Path)
  | boxed (base : Path)
  | shared (type : Path)
  deriving Repr

/-- The codec of a type. -/
structure CodecUnit where
  encoded : Encoded
  dependency : Option Ty
  state : CodecState
  encode : EncodeBody
  decode : DecodeBody
  /-- The type can be a part of other types that have codecs. -/
  isNestable : Bool
  deriving Repr

/-- A slot name that is no identifier: generation cannot go on. -/
structure InvalidSlot where
  name : String
  deriving DecidableEq, Repr

/-! ### Slots -/

/-- The text of the name of the slot for a local name. -/
def slotText (binding : Ident) : String :=
  String.ofList (binding.text.toList.dropWhile (· == '_')) ++ "_offset"

/-- The name of the slot for a local name. -/
def slotName (binding : Ident) : Except InvalidSlot Ident :=
  let text := slotText binding
  if text.toList.head?.any Text.isIdentStart then .ok ⟨text⟩ else .error ⟨text⟩

/-! ### Calling a function -/

/-- The statements that borrow a value and write it, and the slot that they need. -/
def encodeField (f : WireField) : Except InvalidSlot (List EncodeStep × Option Slot) := do
  let write : EncodeStep := .write (Transfer.of f.kind) f.type f.binding
  match f.reach with
  | .getter method => return ([.call f.binding method, .borrow f.binding f.type, write], none)
  | .publicField path => return ([.borrowField f.binding f.type path, write], none)
  | .rawOffset declaring path type =>
    let slot ← slotName f.binding
    return ([.borrowSlot f.binding type slot, write], some ⟨slot, type, path, declaring, f.name⟩)

/-- The statement that binds a value. -/
def decodeField (f : WireField) : DecodeStep := .read (Transfer.of f.kind) f.type f.binding

/-- The arguments for the parameters: the dependency, and the values that travelled one after the
other. -/
def arguments : List Param → List WireField → List (Ident × Argument)
  | [], _ => []
  | p :: params, wire =>
    if p.isDependency then (p.name, .dependency) :: arguments params wire
    else match wire with
      | f :: rest => (p.name, .bound f.binding) :: arguments params rest
      | [] => (p.name, .absent) :: arguments params []

/-- The codec that calls a function to make the value. -/
def ofInstantiator (type : Path) (plan : InstantiatorPlan) : Except InvalidSlot CodecUnit := do
  let fields ← plan.wire.mapM encodeField
  let slots := fields.filterMap (·.2)
  let construction := plan.construction
  let dependency : List DecodeStep :=
    if construction.dependency?.isSome then [.takeDependency] else []
  return {
    encoded := .itself type
    dependency := plan.dependency
    state := if slots.isEmpty then .stateless else .offsets slots
    encode := .steps (fields.flatMap (·.1))
    decode := .steps (plan.wire.map decodeField ++ dependency)
      (.make type construction.maker (arguments construction.params plan.wire)
        construction.failure.isSome)
    isNestable := plan.dependency.isNone }

/-! ### Assigning public fields -/

/-- A field that is read by its path, with the path. -/
def withPath (f : WireField) : Option (WireField × List Ident) :=
  match f.reach with
  | .publicField path => some (f, path)
  | _ => none

/-- The codec that assigns the public fields. -/
def ofPublicFields (type : Path) (plan : PublicFieldsPlan) : CodecUnit :=
  let fields := plan.fields.filterMap withPath
  let encode : List EncodeStep := fields.flatMap fun (f, path) =>
    [.borrowField f.binding f.type path, .write (Transfer.of f.kind) f.type f.binding]
  let assign : List DecodeStep := fields.map fun (f, path) => .assign path f.binding
  { encoded := .itself type
    dependency := plan.dependency
    state := .stateless
    encode := .steps encode
    decode := .steps (fields.map (fun (f, _) => decodeField f) ++ .startDefault type :: assign)
      .assigned
    isNestable := plan.dependency.isNone }

/-! ### Bases and canonical values -/

/-- The codec of a base, which hands each value to the codec of its own type. -/
def ofPolymorphic (base : Path) (dependency : Option Ty) : CodecUnit where
  encoded := .boxed base
  dependency := dependency
  state := .registry
  encode := .registry base
  decode := .registry base
  isNestable := false

/-- The codec of a type with one value. -/
def ofSingleton (type instancePath : Path) : CodecUnit where
  encoded := .shared type
  dependency := none
  state := .stateless
  encode := .steps []
  decode := .steps [] (.canonical instancePath)
  isNestable := false

/-- The codec of a type that follows a plan. -/
def CodecUnit.ofPlan (type : Path) : CodecPlan → Except InvalidSlot CodecUnit
  | .instantiator plan => ofInstantiator type plan
  | .publicFields plan => .ok (ofPublicFields type plan)
  | .polymorphic dependency => .ok (ofPolymorphic type dependency)
  | .singleton instancePath => .ok (ofSingleton type instancePath)

end CodecForge.Code
