import CodecForge.Plan.Fault
import CodecForge.Plan.Kind
import CodecForge.Plan.Lookup
import CodecForge.Source.Grammar

/-!
# Reaching a value

How an encoder reads one value of an instance: through a method where the type follows the accessor
convention, and otherwise through the field of the same name, by its path if all of it is public
and by its offset if not.
-/

namespace CodecForge.Plan

open CodecForge.Schema CodecForge.Source

/-- How a value is read. -/
inductive Reach where
  | getter (method : Ident)
  | publicField (path : List Ident)
  | rawOffset (declaring : String) (path : List Ident) (type : Ty)
  deriving Repr

/-! ### Reading source text for a type -/

/-- Reads source text, with the fault of the type if it is refused. -/
def readOr {α : Type} (d : TypeDecl) (parse? : String → Option α) (text : String) :
    Except Fault α :=
  match parse? text with
  | some a => .ok a
  | none => .error (fault d (.invalidType text))

theorem readOr_eq_ok_iff {α : Type} {d : TypeDecl} {parse? : String → Option α} {text : String}
    {a : α} : readOr d parse? text = .ok a ↔ parse? text = some a := by
  unfold readOr
  split <;> simp_all

theorem readOr_eq_error_iff {α : Type} {d : TypeDecl} {parse? : String → Option α} {text : String}
    {f : Fault} :
    readOr d parse? text = .error f ↔ parse? text = none ∧ f = fault d (.invalidType text) := by
  unfold readOr
  split <;> simp_all [eq_comm]

/-- The type that a text spells. -/
def readType (d : TypeDecl) (text : String) : Except Fault Ty := readOr d Ty.parse? text

/-- The path that a text spells. -/
def readPath (d : TypeDecl) (text : String) : Except Fault Path := readOr d Path.parse? text

/-- The identifier that a text is. -/
def readIdent (d : TypeDecl) (text : String) : Except Fault Ident := readOr d Ident.parse? text

/-- The kind of the type of a field. -/
def kindOf (d : TypeDecl) (field : String) (type : Ty) : Except Fault Kind :=
  match Kind.of type with
  | .ok kind => .ok kind
  | .error reason => .error (fault d (.unsupportedFieldType field type.text reason.message))

/-! ### The way to a value -/

/-- The names a getter may have, the preferred one first. -/
def getterNames (name : String) (kind : Kind) : List String :=
  match kind with
  | .scalar .bool => [name, "is_" ++ name]
  | _ => [name, "get_" ++ name]

/-- A method of the given name that takes no arguments is declared. -/
def declaresAccessor (d : TypeDecl) (name : String) : Bool :=
  d.methods.any fun m => m.arity == 0 && m.name == name

/-- The way to a value through a method. -/
def reachGetter (d : TypeDecl) (name : String) (kind : Kind) : Except Fault Reach :=
  match (getterNames name kind).find? (declaresAccessor d) with
  | none => .error (fault d (.missingAccessor name))
  | some method => return .getter (← readIdent d method)

/-- The way to a value through the field of its name. -/
def reachField (d : TypeDecl) (name : String) : Except Fault Reach :=
  match findField d name with
  | none => .error (fault d (.fieldNotFound name))
  | some found => do
    let path ← found.path.mapM (readIdent d)
    if found.isPublic then return .publicField path
    else return .rawOffset found.declaring.displayName path (← readType d found.field.type)

/-- The way to the value of the given name and kind. -/
def reach (d : TypeDecl) (name : String) (kind : Kind) : Except Fault Reach :=
  if d.accessorConvention then reachGetter d name kind else reachField d name

end CodecForge.Plan
