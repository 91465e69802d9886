import CodecForge.Source.Grammar

/-!
# Declared types and traits

The items that codecs are asked for on: structures with their fields, and traits with their
bounds.  Of an enumeration or a union only the form is kept.
-/

namespace CodecForge.Source

/-- The declaration of a type. -/
structure TypeItem where
  attributes : List Attribute
  visibility : Visibility
  name : Ident
  /-- It has generic parameters. -/
  isGeneric : Bool
  body : TypeBody
  deriving Repr

/-- The declaration of a trait. -/
structure TraitItem where
  attributes : List Attribute
  visibility : Visibility
  /-- The words between the visibility and the name. -/
  keywords : Tokens
  name : Ident
  isGeneric : Bool
  bounds : List Grammar.Bound
  /-- A `+` stands after the last bound. -/
  trailing : Bool
  whereClause : Tokens
  /-- The inside of the braces. -/
  items : Tokens

namespace TraitItem

/-- The trait has a bound whose path ends in the given name. -/
def hasBound (t : TraitItem) (name : String) : Bool :=
  t.bounds.any fun b => b.trait.any fun i => i.text == name

/-- Adds a bound after the others. -/
def addBound (t : TraitItem) (path : Path) : TraitItem :=
  { t with
    bounds := t.bounds ++ [⟨path.tokens, path.segments.getLast?.map Segment.ident⟩]
    trailing := false }

/-- The tokens of a trait without generic parameters. -/
def tokens (t : TraitItem) : Tokens :=
  t.attributes.flatMap Attribute.tokens ++ t.visibility.tokens ++ t.keywords ++
    t.name.token :: Grammar.traitBoundsTokens t.bounds t.trailing ++ t.whereClause ++
      [Token.braces t.items]

end TraitItem

namespace Grammar

open CodecForge.Source.Parser

variable (g : Grammar)

/-- The declaration of a type. -/
def readTypeDeclaration : Parser TypeItem := do
  let attributes ← g.readAttributes
  let visibility ← readVisibility
  let form ← anyWord
  let name ← ident
  let (params, _) ← g.readGenerics
  let (body, _) ← g.readTypeBody form.text
  return ⟨attributes, visibility, name, params > 0, body⟩

/-- The declaration of a trait. -/
def readTraitDeclaration : Parser TraitItem := do
  let attributes ← g.readAttributes
  let visibility ← readVisibility
  let keywords ← seq [word? "unsafe", word? "auto", word "trait"]
  let name ← ident
  let (params, _) ← g.readGenerics
  let (bounds, trailing) ← g.readTraitBounds
  let whereClause ← g.readWhere
  let items ← group .brace (g.readAssociatedItems true)
  return ⟨attributes, visibility, keywords, name, params > 0, bounds, trailing, whereClause, items⟩

end Grammar

end CodecForge.Source
