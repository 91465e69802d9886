import CodecForge.Plan.CodecPlan

/-!
# Bodies of codecs

The two functions of a codec as sequences of statements.  The encoder borrows each value from the
instance and writes it; the decoder binds each value to the next bytes and makes the instance of
what it has bound.  `binding` is always the local name that a statement gives to a value or takes
it from.
-/

namespace CodecForge.Code

open CodecForge.Source CodecForge.Plan

/-- How a value goes to and from the bytes. -/
inductive Transfer where
  /-- One truth value or integer. -/
  | scalar (s : Scalar)
  /-- The elements of an array, one by one. -/
  | elements (s : Scalar) (len : Expr)
  /-- By the codec of its type. -/
  | marshalled
  deriving Repr

/-- How the values of a kind go to and from the bytes. -/
def Transfer.of (kind : Kind) : Transfer :=
  match kind with
  | .scalar s => .scalar s
  | _ =>
    match kind.inlineArray? with
    | some (s, len) => .elements s len
    | none => .marshalled

/-- A statement of an encoder. -/
inductive EncodeStep where
  /-- Binds the result of a method. -/
  | call (binding method : Ident)
  /-- Borrows what the name is bound to, as a value of the type. -/
  | borrow (binding : Ident) (type : Ty)
  /-- Borrows the field at a path. -/
  | borrowField (binding : Ident) (type : Ty) (path : List Ident)
  /-- Borrows the field at the offset that a slot holds. -/
  | borrowSlot (binding : Ident) (type : Ty) (slot : Ident)
  /-- Writes the borrowed value. -/
  | write (transfer : Transfer) (type : Ty) (binding : Ident)
  deriving Repr

/-- A statement of a decoder. -/
inductive DecodeStep where
  /-- Binds the next value. -/
  | read (transfer : Transfer) (type : Ty) (binding : Ident)
  /-- Binds the dependency, which has to be there. -/
  | takeDependency
  /-- Binds the default instance. -/
  | startDefault (type : Path)
  /-- Assigns a value to the field of the instance at a path. -/
  | assign (path : List Ident) (binding : Ident)
  deriving Repr

/-- An argument of the function that makes the value. -/
inductive Argument where
  | dependency
  | bound (binding : Ident)
  | absent
  deriving Repr

/-- The expression that a decoder ends in. -/
inductive Outcome where
  /-- Makes the value from named arguments; a function that can fail has its error wrapped. -/
  | make (type : Path) (maker : Maker) (args : List (Ident × Argument)) (fallible : Bool)
  /-- The instance that was assigned to. -/
  | assigned
  /-- The canonical value. -/
  | canonical (instancePath : Path)
  deriving Repr

/-- The body of an encoder. -/
inductive EncodeBody where
  | steps (steps : List EncodeStep)
  /-- Hands the value to the registry, as a value of the base. -/
  | registry (base : Path)
  deriving Repr

/-- The body of a decoder. -/
inductive DecodeBody where
  | steps (steps : List DecodeStep) (outcome : Outcome)
  /-- Has the registry decode a value of the base. -/
  | registry (base : Path)
  deriving Repr

end CodecForge.Code
