import CodecForge.Code.CodecUnit
import CodecForge.Dispatch.Registry
import CodecForge.Wire.Marshal

/-!
# What the bodies of codecs do

The meaning of the statements of a codec.  Local names are bound as the code binds them: a later
binding hides an earlier one of the same name.  What the code refers to outside itself is given by
a `Marshalling`, for the types that it leaves to their own codecs, and a `Host`, for the type
itself.
-/

namespace CodecForge.Eval

open CodecForge.Source CodecForge.Plan CodecForge.Code CodecForge.Wire CodecForge.Dispatch

/-- The codecs of the types of fields, and the lengths that array types name. -/
structure Marshalling where
  encode : Ty → Value → Writer Unit
  decode : Ty → Reader Value
  length : Expr → Nat

/-- What the code of a type refers to. -/
structure Host where
  /-- The name that its codec reports. -/
  typeName : String
  /-- The result of a method without arguments. -/
  method : Ident → Value → Value
  /-- The result of making a value from named arguments, or why that failed. -/
  make : Maker → List (Ident × Value) → Except String Value
  default : Value
  canonical : Value
  /-- The name by which the type that the tokens spell is known while codecs run. -/
  nameOf : Tokens → String := Token.spell
  /-- The registry that the codec of a base holds. -/
  registry : Registry := .empty

/-- The local names with their values, the latest first. -/
abbrev Locals := List (String × Value)

/-- The value that a name is bound to; a name that is not bound stands for the unit. -/
def Locals.value (locals : Locals) (name : String) : Value := (locals.lookup name).getD .unit

/-- Binds a name. -/
def Locals.bind (locals : Locals) (name : String) (v : Value) : Locals := (name, v) :: locals

/-- The names of a path. -/
def pathNames (path : List Ident) : List String := path.map Ident.bare

/-! ### Writing -/

/-- Writes a scalar. -/
def writeScalar : Scalar → Value → Writer Unit
  | .bool, .bool b => Writer.bool b
  | .int32, .integer n => Writer.integer .w32 n
  | _, _ => pure ()

/-- The elements of a value. -/
def elements : Value → List Value
  | .list elems => elems
  | _ => []

/-- Writes a value. -/
def writeValue (m : Marshalling) (type : Ty) (v : Value) : Transfer → Writer Unit
  | .scalar s => writeScalar s v
  | .elements s _ => (elements v).forM (writeScalar s)
  | .marshalled => m.encode type v

/-- The path of the field whose offset a slot holds. -/
def slotPath (slots : List Slot) (name : Ident) : List Ident :=
  ((slots.find? fun s => s.name == name).map Slot.path).getD []

/-- The effect of a statement of an encoder on the output and the local names. -/
def encodeStep (m : Marshalling) (h : Host) (slots : List Slot) (self : Value) (locals : Locals) :
    EncodeStep → Writer Locals
  | .call binding method => return locals.bind binding.text (h.method method self)
  | .borrow binding _ => return locals.bind binding.text (locals.value binding.text)
  | .borrowField binding _ path => return locals.bind binding.text (self.fieldAt (pathNames path))
  | .borrowSlot binding _ slot =>
    return locals.bind binding.text (self.fieldAt (pathNames (slotPath slots slot)))
  | .write transfer type binding => do
    writeValue m type (locals.value binding.text) transfer
    return locals

/-- The effect of the statements of an encoder. -/
def encodeSteps (m : Marshalling) (h : Host) (slots : List Slot) (self : Value)
    (steps : List EncodeStep) : Writer Unit := do
  let _ ← steps.foldlM (encodeStep m h slots self) []

/-! ### Reading -/

/-- Reads a scalar. -/
def readScalar : Scalar → Reader Value
  | .bool => return .bool (← Reader.bool)
  | .int32 => return .integer (← Reader.integer true .w32)

/-- Reads a value. -/
def readValue (m : Marshalling) (type : Ty) : Transfer → Reader Value
  | .scalar s => readScalar s
  | .elements s len => return .list (← decodeMany (readScalar s) (m.length len))
  | .marshalled => m.decode type

/-- The name that the dependency is bound to. -/
def dependencyName : String := "__dependency"

/-- The name that the instance is bound to. -/
def instanceName : String := "__instance"

/-- The effect of a statement of a decoder on the input and the local names. -/
def decodeStep (m : Marshalling) (h : Host) (dependency : Option Value) (locals : Locals) :
    DecodeStep → Reader Locals
  | .read transfer type binding => return locals.bind binding.text (← readValue m type transfer)
  | .takeDependency =>
    match dependency with
    | some d => return locals.bind dependencyName d
    | none => throw (.missingDependency h.typeName)
  | .startDefault _ => return locals.bind instanceName h.default
  | .assign path binding =>
    return locals.bind instanceName
      (Value.setAt (locals.value binding.text) (pathNames path) (locals.value instanceName))

/-- The value of an argument. -/
def argumentValue (locals : Locals) : Argument → Value
  | .dependency => locals.value dependencyName
  | .bound binding => locals.value binding.text
  | .absent => .unit

/-- The value of the expression that a decoder ends in. -/
def outcomeValue (h : Host) (locals : Locals) : Outcome → Reader Value
  | .make _ maker args _ =>
    match h.make maker (args.map fun a => (a.1, argumentValue locals a.2)) with
    | .ok v => return v
    | .error cause => throw (.instantiator h.typeName cause)
  | .assigned => return locals.value instanceName
  | .canonical _ => return h.canonical

/-- The effect of the statements of a decoder and the expression behind them. -/
def decodeSteps (m : Marshalling) (h : Host) (dependency : Option Value) (steps : List DecodeStep)
    (outcome : Outcome) : Reader Value := do
  let locals ← steps.foldlM (decodeStep m h dependency) []
  outcomeValue h locals outcome

/-! ### Handing on to a registry -/

/-- A value of a base as one of its own type, under the name of that type. -/
def boxed (v : Typed) : Value := .record [(v.type, v.value)]

/-- What is in a value of a base. -/
def unboxed : Value → Typed
  | .record [(type, v)] => ⟨type, v⟩
  | v => ⟨"", v⟩

@[simp]
theorem unboxed_boxed (v : Typed) : unboxed (boxed v) = v := rfl

/-- The name of the type that stands for no dependency. -/
def noDependencyName : String := "NoDependency"

/-- A dependency of the given type as one of any type. -/
def erased (h : Host) (type : Option Ty) (dependency : Option Value) : Option Typed :=
  dependency.map fun d => ⟨(type.map fun t => h.nameOf t.tokens).getD noDependencyName, d⟩

/-- The name that the values of a base are registered under. -/
def baseName (h : Host) (base : Tokens) : String := "dyn " ++ h.nameOf base

end CodecForge.Eval
