import CodecForge.Source.Grammar.Basic

/-!
# Reading attributes

An attribute is a path of names with nothing behind it, with arguments in brackets that are kept
as they are, or with a value.
-/

namespace CodecForge.Source

/-- What stands behind the path of an attribute. -/
inductive AttributeArgs where
  | absent
  | list (delimiter : Delimiter) (tokens : Tokens)
  | value (tokens : Tokens)
  deriving Repr

/-- An attribute in front of a piece of syntax. -/
structure Attribute where
  rooted : Bool
  names : List Ident
  args : AttributeArgs
  deriving Repr

namespace Attribute

/-- The attribute is named by this one word. -/
def isNamed (a : Attribute) (name : String) : Bool := !a.rooted && a.names == [⟨name⟩]

/-- The tokens of an attribute. -/
def tokens (a : Attribute) : Tokens :=
  let args := match a.args with
    | .absent => []
    | .list d inner => [.group d inner]
    | .value v => Token.op "=" ++ v
  let path := PathOf.ofNames a.rooted (a.names.map Ident.text)
  Token.op "#" ++ [Token.brackets (path.tokens ++ args)]

end Attribute

namespace Grammar

open CodecForge.Source.Parser

variable (g : Grammar)

/-- A name in a path without arguments. -/
def beginsPathName (ts : Tokens) : Bool :=
  beginsIdent ts || beginsWord "super" ts || beginsWord "self" ts || beginsWord "Self" ts ||
    beginsWord "crate" ts

/-- A path of plain names: whether it is rooted, and its names. -/
def readPlainPath : Parser (Bool × List Ident) := do
  let rooted ← peek (beginsOp "::")
  let _ ← op? "::"
  let name : Parser Ident := do
    require (← peek beginsPathName)
    anyWord
  let first ← name
  let others ← many (beginsOp "::") (do
    let _ ← op "::"
    name)
  return (rooted, first :: others)

/-- The value of an attribute: a literal alone, or an expression. -/
def readAttributeValue : Speller := do
  if ← peek fun ts => beginsLiteral ts && (ts.length = 1 || (beginsOp "-" ts && ts.length = 2)) then
    literal
  else g.expr .joined

/-- What stands inside the brackets of an attribute. -/
def readMeta : Parser Attribute := do
  let (rooted, names) ← readPlainPath
  match ← get with
  | .group d inner :: rest =>
    set rest
    return ⟨rooted, names, .list d inner⟩
  | ts =>
    if beginsOp "=" ts then
      let _ ← op "="
      return ⟨rooted, names, .value (← g.readAttributeValue)⟩
    else return ⟨rooted, names, .absent⟩

/-- The attributes in front of a piece of syntax. -/
def readAttributes : Parser (List Attribute) :=
  many (beginsOp "#") (do
    let _ ← op "#"
    group .bracket g.readMeta)

/-- The attributes in front of a piece of syntax, as their spelling. -/
def readOuterAttributes : Speller := return (← g.readAttributes).flatMap Attribute.tokens

/-- The attributes at the head of a block that belong to what the block is part of. -/
def readInnerAttributes : Speller := do
  let attributes ← many (fun ts => beginsOp "#" ts && beginsOp "!" (ts.drop 1)) (do
    let _ ← token
    let _ ← op "!"
    group .bracket g.readMeta)
  return attributes.flatMap fun a => Token.op "#" ++ Token.op "!" ++ a.tokens.drop 1

end Grammar

end CodecForge.Source
