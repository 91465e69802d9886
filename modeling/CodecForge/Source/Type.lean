import CodecForge.Source.Token

/-!
# Types and paths

The syntax of types as far as a codec depends on it: paths with their generic arguments, tuples,
arrays and brackets around a type are trees, and every other form is its class and its spelling.
`Ty.tokens` and `Path.tokens` give back the tokens of a tree.
-/

namespace CodecForge.Source

/-- An identifier, with its `r#` mark if it has one. -/
structure Ident where
  text : String
  deriving DecidableEq, Repr

/-- The identifier without its `r#` mark. -/
def Ident.bare (i : Ident) : String :=
  match i.text.toList with
  | 'r' :: '#' :: name => String.ofList name
  | _ => i.text

/-- The token of an identifier. -/
def Ident.token (i : Ident) : Token := .ident i.text

/-- An expression, kept as the tokens that spell it. -/
structure Expr where
  tokens : Tokens
  deriving Repr

/-- One argument between angle brackets, over the types `τ`.  Constants and associated items are
kept as their spelling. -/
inductive GenericArg (τ : Type) where
  | lifetime (name : String)
  | type (t : τ)
  | other (tokens : Tokens)
  deriving Repr

/-- The arguments of a path segment: none, a list between angle brackets, or the spelling of a
parameter list in parentheses with its result. -/
inductive Arguments (τ : Type) where
  | absent
  | angled (turbofish : Bool) (args : List (GenericArg τ)) (trailing : Bool)
  | signature (tokens : Tokens)
  deriving Repr

/-- A name in a path with its arguments. -/
structure Segment (τ : Type) where
  ident : Ident
  args : Arguments τ
  deriving Repr

/-- A path: names parted by `::`, with a leading `::` or without. -/
structure PathOf (τ : Type) where
  rooted : Bool
  segments : List (Segment τ)
  deriving Repr

/-- The classes of types that are kept as their spelling. -/
inductive TyForm where
  | reference
  | pointer
  | function
  | slice
  | traitObject
  | implTrait
  | never
  | inferred
  | invocation
  | verbatim
  deriving DecidableEq, Repr

/-- A type.  `invisible` brackets leave no trace in the spelling. -/
inductive Ty where
  | path (p : PathOf Ty)
  | qualified (self : Ty) (trait : Option (PathOf Ty)) (rest : List (Segment Ty))
  | tuple (elems : List Ty) (trailing : Bool)
  | array (elem : Ty) (len : Expr)
  | paren (inner : Ty)
  | invisible (inner : Ty)
  | other (form : TyForm) (tokens : Tokens)
  deriving Repr

abbrev Path := PathOf Ty

/-- Parts with a separator between them. -/
def sepBy (sep : Tokens) : List Tokens → Tokens
  | [] => []
  | [t] => t
  | t :: rest => t ++ sep ++ sepBy sep rest

/-- Parts with a comma between them, and one after the last if `trailing`. -/
def commas (parts : List Tokens) (trailing : Bool) : Tokens :=
  sepBy [.mark ',' false] parts ++ (if trailing then [.mark ',' false] else [])

/-- The argument is a lifetime. -/
def GenericArg.isLifetime {τ : Type} : GenericArg τ → Bool
  | .lifetime _ => true
  | _ => false

/-- A list without arguments: none are written, or the angle brackets are empty. -/
def Arguments.isEmpty {τ : Type} : Arguments τ → Bool
  | .absent => true
  | .angled _ args _ => args.isEmpty
  | .signature _ => false

/-- Each part with whether a comma stands after it. -/
def withCommas {α : Type} (trailing : Bool) : List α → List (α × Bool)
  | [] => []
  | [a] => [(a, trailing)]
  | a :: rest => (a, true) :: withCommas trailing rest

/-- The tokens between angle brackets: lifetimes come before all other arguments, each part keeps
the comma after it, and one is added where two parts would otherwise meet. -/
def angledTokens (parts : List (Bool × Tokens)) (trailing : Bool) : Tokens :=
  let marked := withCommas trailing parts
  let ordered := marked.filter (·.1.1) ++ marked.filter (!·.1.1)
  let write (acc : Tokens × Bool) (part : (Bool × Tokens) × Bool) : Tokens × Bool :=
    (acc.1 ++ (if acc.2 then [] else [.mark ',' false]) ++ part.1.2 ++
      (if part.2 then [.mark ',' false] else []), part.2)
  (ordered.foldl write ([], true)).1

mutual

/-- The tokens of a type. -/
def Ty.tokens : Ty → Tokens
  | .path p => pathTokens p
  | .qualified self trait rest =>
    Token.op "<" ++ self.tokens ++ traitTokens trait ++ Token.op ">" ++ Token.op "::" ++
      segmentsTokens rest
  | .tuple elems trailing =>
    [Token.parens (commas (tupleTokens elems) (trailing || elems.length = 1))]
  | .array elem len => [Token.brackets (elem.tokens ++ Token.op ";" ++ len.tokens)]
  | .paren inner => [Token.parens inner.tokens]
  | .invisible inner => inner.tokens
  | .other _ tokens => tokens

/-- The tokens of each type of a list. -/
def tupleTokens : List Ty → List Tokens
  | [] => []
  | t :: rest => t.tokens :: tupleTokens rest

/-- The tokens of `as` and the trait of a qualified path. -/
def traitTokens : Option (PathOf Ty) → Tokens
  | none => []
  | some p => .ident "as" :: pathTokens p

/-- The tokens of a path. -/
def pathTokens : PathOf Ty → Tokens
  | ⟨rooted, segments⟩ =>
    (if rooted then Token.op "::" else []) ++ segmentsTokens segments

/-- The tokens of path segments with `::` between them. -/
def segmentsTokens : List (Segment Ty) → Tokens
  | [] => []
  | [s] => segmentTokens s
  | s :: rest => segmentTokens s ++ Token.op "::" ++ segmentsTokens rest

/-- The tokens of a path segment. -/
def segmentTokens : Segment Ty → Tokens
  | ⟨ident, args⟩ => ident.token :: argumentsTokens args

/-- The tokens of the arguments of a path segment. -/
def argumentsTokens : Arguments Ty → Tokens
  | .absent => []
  | .angled turbofish args trailing =>
    (if turbofish then Token.op "::" else []) ++ Token.op "<" ++
      angledTokens (argParts args) trailing ++ Token.op ">"
  | .signature tokens => tokens

/-- For each argument, whether it is a lifetime, and its tokens. -/
def argParts : List (GenericArg Ty) → List (Bool × Tokens)
  | [] => []
  | a :: rest => (a.isLifetime, argTokens a) :: argParts rest

/-- The tokens of one generic argument. -/
def argTokens : GenericArg Ty → Tokens
  | .lifetime name => [.lifetime name]
  | .type t => t.tokens
  | .other tokens => tokens

end

/-- The tokens of a path. -/
abbrev PathOf.tokens (p : PathOf Ty) : Tokens := pathTokens p

/-- The text of a type. -/
def Ty.text (t : Ty) : String := Token.spell t.tokens

/-- The text of a path. -/
def PathOf.text (p : PathOf Ty) : String := Token.spell p.tokens

/-- The path made of plain names. -/
def PathOf.ofNames (rooted : Bool) (names : List String) : PathOf Ty :=
  ⟨rooted, names.map fun n => ⟨⟨n⟩, .absent⟩⟩

/-- The last name of the path that a type is, qualified or not. -/
def Ty.lastSegment? : Ty → Option (Segment Ty)
  | .path p => p.segments.getLast?
  | .qualified _ _ rest => rest.getLast?
  | _ => none

/-- The arguments that are types. -/
def Arguments.types {τ : Type} : Arguments τ → List τ
  | .angled _ args _ => args.filterMap fun
    | .type t => some t
    | _ => none
  | _ => []

end CodecForge.Source
