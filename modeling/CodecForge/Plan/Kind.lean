import CodecForge.Source.Type

/-!
# Kinds of types

How the values of a type travel.  Truth values and 32-bit integers, and arrays of either, are
written by the codec itself; all else that owns its data is left to the codec of its type; and
types that own no data of a known size have no kind.
-/

namespace CodecForge.Plan

open CodecForge.Source

/-- The types that a codec writes by itself. -/
inductive Scalar where
  | bool
  | int32
  deriving DecidableEq, Repr

/-- How the values of a type travel. -/
inductive Kind where
  | scalar (s : Scalar)
  | array (elem : Kind) (len : Expr)
  /-- There is nothing to write. -/
  | void
  | declared
  deriving Repr

/-- Why the values of a type cannot travel. -/
inductive Unsupported where
  | reference
  | pointer
  | function
  | slice
  | traitObject
  | implTrait
  | never
  | inferred
  | unknownForm
  deriving DecidableEq, Repr

/-- The wording of the reason. -/
def Unsupported.message : Unsupported → String
  | .reference => "borrowed references cannot be decoded into an owned value"
  | .pointer => "raw pointers have no serialized form"
  | .function => "function pointers have no serialized form"
  | .slice => "unsized slices cannot be stored by value"
  | .traitObject => "bare trait objects are unsized; box them and use the polymorphic strategy"
  | .implTrait => "impl Trait is not a nameable field type"
  | .never => "the never type has no values"
  | .inferred => "inferred types cannot appear in a codec"
  | .unknownForm => "type form is not supported"

/-- Why a type of this form has no kind. -/
def Unsupported.ofForm : TyForm → Unsupported
  | .reference => .reference
  | .pointer => .pointer
  | .function => .function
  | .slice => .slice
  | .traitObject => .traitObject
  | .implTrait => .implTrait
  | .never => .never
  | .inferred => .inferred
  | .invocation => .unknownForm
  | .verbatim => .unknownForm

/-- The kind of the type that a path names: the two scalar types are named by one bare word, and a
marker type by the last word of any path. -/
def Kind.ofPath (p : Path) : Kind :=
  match p.segments.getLast? with
  | none => .declared
  | some last =>
    let bare := p.segments.length = 1 && last.args.isEmpty
    if last.ident.text = "bool" && bare then .scalar .bool
    else if last.ident.text = "i32" && bare then .scalar .int32
    else if last.ident.text = "PhantomData" then .void
    else .declared

mutual

/-- The kind of a type, or why it has none. -/
def Kind.of : Ty → Except Unsupported Kind
  | .path p => .ok (Kind.ofPath p)
  | .qualified _ _ _ => .ok .declared
  | .tuple elems _ => do
    Kind.check elems
    return if elems.isEmpty then .void else .declared
  | .array elem len => return .array (← Kind.of elem) len
  | .paren inner => Kind.of inner
  | .invisible inner => Kind.of inner
  | .other form _ => .error (Unsupported.ofForm form)

/-- Each type of a list has a kind. -/
def Kind.check : List Ty → Except Unsupported Unit
  | [] => .ok ()
  | t :: rest => do
    let _ ← Kind.of t
    Kind.check rest

end

namespace Kind

/-- There is nothing to write. -/
def isVoid : Kind → Bool
  | .void => true
  | _ => false

/-- The element and the length of an array that a codec writes by itself. -/
def inlineArray? : Kind → Option (Scalar × Expr)
  | .array (.scalar s) len => some (s, len)
  | _ => none

end Kind

end CodecForge.Plan
