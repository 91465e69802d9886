import CodecForge.Source.Grammar.Expr

/-!
# Reading fields

The readers of visibilities and of the bodies of declared types.  Visibilities and named fields are
trees as well as spellings, since codecs depend on them.
-/

namespace CodecForge.Source

/-- How far a name can be seen: as far as its surroundings, everywhere, or within a path. -/
inductive Visibility where
  | inherited
  | everywhere
  | within (tokens : Tokens)
  deriving Repr

/-- The tokens of a visibility. -/
def Visibility.tokens : Visibility → Tokens
  | .inherited => []
  | .everywhere => [.ident "pub"]
  | .within inner => [.ident "pub", Token.parens inner]

/-- It can be seen everywhere. -/
def Visibility.isPublic : Visibility → Bool
  | .everywhere => true
  | _ => false

/-- A named field of a structure. -/
structure Field where
  attributes : List Attribute
  visibility : Visibility
  name : Ident
  type : Ty
  deriving Repr

/-- The tokens of a named field. -/
def Field.tokens (f : Field) : Tokens :=
  f.attributes.flatMap Attribute.tokens ++ f.visibility.tokens ++ f.name.token :: Token.op ":" ++
    f.type.tokens

/-- What the declaration of a type consists of. -/
inductive TypeBody where
  | named (fields : List Field)
  | unnamed
  | unit
  /-- It declares no structure. -/
  | other
  deriving Repr

namespace Grammar

open CodecForge.Source.Parser

variable (g : Grammar)

/-! ### Visibilities -/

/-- The inside of the parentheses behind `pub`, if it restricts the visibility. -/
def restriction? (inside : Tokens) : Option Tokens :=
  if beginsWord "crate" inside || beginsWord "self" inside || beginsWord "super" inside then
    if inside.length = 1 then some inside else none
  else if beginsWord "in" inside then do
    let (rooted, names) ← all readPlainPath (inside.drop 1)
    some (.ident "in" :: (PathOf.ofNames rooted (names.map Ident.text)).tokens)
  else none

/-- A visibility. -/
def readVisibility : Parser Visibility := do
  if ← peek (beginsWord "pub") then
    let _ ← word "pub"
    match ← get with
    | .group .paren inside :: rest =>
      if beginsWord "in" inside then
        let inner ← (restriction? inside : Option Tokens)
        set rest
        return .within inner
      else match restriction? inside with
        | some inner =>
          set rest
          return .within inner
        | none => return .everywhere
    | _ => return .everywhere
  else return .inherited

/-! ### Fields and variants -/

/-- A named field. -/
def readField : Parser Field := do
  let attributes ← g.readAttributes
  let visibility ← readVisibility
  let name ← if ← peek (beginsWord "_") then anyWord else ident
  let _ ← op ":"
  return ⟨attributes, visibility, name, ← g.type .allowed⟩

/-- Named fields in braces, as a tree and as their spelling. -/
def readNamedFields : Parser (List Field × Tokens) := do
  let (fields, trailing) ← group .brace (listed g.readField)
  return (fields, [Token.braces (commas (fields.map Field.tokens) trailing)])

/-- Unnamed fields in parentheses. -/
def readUnnamedFields : Speller :=
  grouped .paren (commaList (seq [g.readOuterAttributes, return (← readVisibility).tokens,
    g.typeTokens .allowed]))

/-- A variant of an enumeration.  A visibility in front of its name leaves no trace. -/
def readVariant : Speller := do
  let attributes ← g.readOuterAttributes
  let _ ← readVisibility
  let name ← ident
  let fields ← if ← peek (beginsGroup .brace) then
      (do
        return (← g.readNamedFields).2)
    else when (beginsGroup .paren) g.readUnnamedFields
  return attributes ++ name.token :: fields ++
    (← when (beginsOp "=") (seq [op "=", g.expr .joined]))

/-- What stands behind the name and the generic parameters of a type that is declared with the
word `form`, as a tree and as its spelling. -/
def readTypeBody (form : String) : Parser (TypeBody × Tokens) := do
  let bounded ← peek (beginsWord "where")
  let clause ← g.readWhere
  match form with
  | "struct" =>
    if !bounded && (← peek (beginsGroup .paren)) then
      return (.unnamed, ← seq [g.readUnnamedFields, g.readWhere, op ";"])
    else if ← peek (beginsGroup .brace) then
      let (fields, tokens) ← g.readNamedFields
      return (.named fields, clause ++ tokens)
    else return (.unit, clause ++ (← op ";"))
  | "enum" => return (.other, clause ++ (← grouped .brace (commaList g.readVariant)))
  | "union" => return (.other, clause ++ (← g.readNamedFields).2)
  | _ => failure

end Grammar

end CodecForge.Source
