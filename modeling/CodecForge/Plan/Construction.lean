import CodecForge.Plan.Reach

/-!
# Making a value

Which function a decoder calls to make a value, and with which parameters.  Factories are checked
first.  Of the marked constructors and the factories there may be one, and it is chosen; without
any, the only constructor is chosen, and without constructors the value is written out with all of
its fields.
-/

namespace CodecForge.Plan

open CodecForge.Schema CodecForge.Source

/-- What makes the value. -/
inductive Maker where
  /-- The value written out with its fields. -/
  | structLiteral
  /-- An associated function. -/
  | associated (name : Ident)
  deriving Repr

/-- A parameter whose type is known. -/
structure Param where
  name : Ident
  type : Ty
  isDependency : Bool
  deriving Repr

/-- How a decoder makes a value. -/
structure Construction where
  maker : Maker
  /-- All parameters as they are declared. -/
  params : List Param
  /-- The error type of a function that can fail. -/
  failure : Option Ty
  deriving Repr

namespace Construction

/-- The name that the answer gives it. -/
def displayName (c : Construction) : String :=
  match c.maker with
  | .structLiteral => "struct literal"
  | .associated name => name.text

/-- The parameters that travel. -/
def wireParams (c : Construction) : List Param := c.params.filter fun p => !p.isDependency

/-- The type of the parameter that the caller of the decoder supplies. -/
def dependency? (c : Construction) : Option Ty :=
  (c.params.find? Param.isDependency).map Param.type

end Construction

/-! ### Result types -/

/-- The type is written as `Self` or by the last name of the type that is declared. -/
def namesSelf (d : TypeDecl) : Ty → Bool
  | .path p => p.segments.getLast?.any fun last =>
    last.args.isEmpty && (last.ident.text == "Self" || last.ident.text == d.name)
  | _ => false

/-- The arguments of a type whose path ends in `Result`. -/
def resultArguments? (t : Ty) : Option (List Ty) :=
  match t.lastSegment? with
  | some last => if last.ident.text = "Result" then some last.args.types else none
  | none => none

/-- The error type that a result type leaves room for, if it is a result type of the declared
type at all. -/
def failureOf? (d : TypeDecl) (t : Ty) : Option (Option Ty) :=
  if namesSelf d t then some none
  else match resultArguments? t with
    | some [value, error] => if namesSelf d value then some (some error) else none
    | _ => none

/-- The error type of a constructor or factory. -/
def failureType (d : TypeDecl) (m : MakerDecl) : Except Fault (Option Ty) :=
  match m.returns with
  | none => .ok none
  | some returns => do
    match failureOf? d (← readType d returns) with
    | some failure => return failure
    | none => .error (fault d (.invalidFactory m.name (.foreignResult returns)))

/-- A factory takes no receiver and returns the type. -/
def checkFactory (d : TypeDecl) (m : MakerDecl) : Except Fault Unit :=
  if m.isStatic then do
    let _ ← failureType d m
  else .error (fault d (.invalidFactory m.name .takesReceiver))

/-! ### Resolution -/

/-- The dependency of the type as a whole; an empty one is none. -/
def typeDependency (d : TypeDecl) : Except Fault (Option Ty) :=
  match d.dependency with
  | none => .ok none
  | some text => do
    let t ← readType d text
    match Kind.of t with
    | .ok .void => return none
    | _ => return some t

/-- The type of a parameter: its own, or that of the field of its name. -/
def paramType (d : TypeDecl) (p : ParamDecl) : Except Fault Ty :=
  match p.type with
  | some text => readType d text
  | none =>
    match findField d p.name with
    | some found => readType d found.field.type
    | none => .error (fault d (.fieldNotFound p.name))

/-- A declared parameter with its type. -/
def resolveParam (d : TypeDecl) (p : ParamDecl) : Except Fault Param := do
  let type ← paramType d p
  return ⟨← readIdent d p.name, type, p.isDependency⟩

/-- The parameters of what is called by the given name: at most one is a dependency. -/
def resolveParams (d : TypeDecl) (called : String) (params : List ParamDecl) :
    Except Fault (List Param) :=
  if (params.filter ParamDecl.isDependency).length > 1 then
    .error (fault d (.multipleDependencyParameters called))
  else params.mapM (resolveParam d)

/-- The parameter that stands for a field of a value that is written out. -/
def fieldParam (f : FieldDecl) : ParamDecl := ⟨f.name, some f.type, f.isDependency⟩

/-- The value written out with its fields. -/
def resolveLiteral (d : TypeDecl) : Except Fault Construction := do
  let fields := d.fields.filter fun f => !f.isStatic
  return ⟨.structLiteral, ← resolveParams d "struct literal" (fields.map fieldParam), none⟩

/-- The call of a constructor or factory. -/
def resolveMaker (d : TypeDecl) (m : MakerDecl) : Except Fault Construction := do
  let name ← readIdent d m.name
  let failure ← failureType d m
  return ⟨.associated name, ← resolveParams d m.name m.params, failure⟩

/-- The constructors and factories that decoding is to call. -/
def markedMakers (d : TypeDecl) : List MakerDecl :=
  d.constructors.filter MakerDecl.isMarked ++ d.factories

/-- What makes the value, before its dependencies are compared. -/
def chooseMaker (d : TypeDecl) : Except Fault Construction :=
  match markedMakers d, d.constructors with
  | [m], _ => resolveMaker d m
  | [], [] => resolveLiteral d
  | [], [m] => resolveMaker d m
  | [], _ => .error (fault d .multipleConstructors)
  | marked, _ => .error (fault d (.multipleInstantiators (marked.map MakerDecl.name)))

/-- How a decoder makes a value of the type. -/
def resolve (d : TypeDecl) : Except Fault Construction := do
  d.factories.forM (checkFactory d)
  let construction ← chooseMaker d
  if construction.dependency?.isSome then
    if (← typeDependency d).isSome then
      throw (fault d .conflictingDependency)
  return construction

end CodecForge.Plan
