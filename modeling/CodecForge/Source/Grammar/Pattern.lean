import CodecForge.Source.Grammar.Type

/-!
# Reading patterns

The reader of patterns, kept as their spelling: names, literals, ranges, references, tuples,
slices, structures and alternatives.
-/

namespace CodecForge.Source

namespace Grammar

open CodecForge.Source.Parser

variable (g : Grammar)

/-- A group of any brackets comes next. -/
def beginsAnyGroup : Tokens → Bool
  | .group _ _ :: _ => true
  | _ => false

/-- An end of a range of values: a literal, a constant block or a path. -/
def readRangeEnd : Speller := do
  if ← peek beginsLiteral then literal
  else if ← peek (beginsWord "const") then seq [word "const", g.block]
  else return (← g.readQualifiedPath true).tokens

/-- What may stand as an end of a range of values. -/
def beginsRangeEnd (ts : Tokens) : Bool :=
  beginsLiteral ts || beginsIdent ts || beginsWord "self" ts || beginsWord "Self" ts ||
    beginsWord "super" ts || beginsWord "crate" ts || beginsOp "::" ts || beginsOp "<" ts ||
    beginsWord "const" ts

/-- The rest of a range of values, from its dots on. -/
def readRangeRest : Speller := do
  if ← peek (beginsOp "..=") then seq [op "..=", g.readRangeEnd]
  else if ← peek (beginsOp "...") then seq [op "...", g.readRangeEnd]
  else seq [op "..", when beginsRangeEnd g.readRangeEnd]

/-- A name that takes the value, with a pattern behind `@` or without. -/
def readBinding : Speller := do
  let marks ← seq [word? "ref", word? "mut"]
  let name ← if ← peek (beginsWord "self") then word "self" else pure [(← ident).token]
  return marks ++ name ++ (← when (beginsOp "@") (seq [op "@", g.single]))

/-- One field of a structure pattern. -/
def readFieldPattern : Speller := do
  let attributes ← g.readOuterAttributes
  if ← peek (beginsOp "..") then return attributes ++ (← op "..")
  else if ← peek fun ts => (beginsIdent ts || beginsLiteral ts) && beginsOp ":" (ts.drop 1) &&
      !beginsOp "::" (ts.drop 1) then
    return attributes ++ [← token] ++ (← op ":") ++ (← g.pattern)
  else return attributes ++ (← seq [word? "box", word? "ref", word? "mut",
    return [(← ident).token]])

/-- A pattern that begins with a path. -/
def readPathPattern : Speller := do
  let path := (← g.readQualifiedPath true).tokens
  if ← peek fun ts => beginsOp "!" ts && !beginsOp "!=" ts && beginsAnyGroup (ts.drop 1) then
    return path ++ (← op "!") ++ (← anyGroup)
  else if ← peek (beginsGroup .brace) then
    return path ++ (← grouped .brace (commaList g.readFieldPattern))
  else if ← peek (beginsGroup .paren) then
    return path ++ (← grouped .paren (commaList g.pattern))
  else if ← peek (beginsOp "..") then return path ++ (← g.readRangeRest)
  else return path

/-- A pattern without alternatives. -/
def readSinglePattern : Speller := do
  let pathAhead (ts : Tokens) :=
    (beginsIdent ts && (beginsOp "::" (ts.drop 1) || beginsOp "!" (ts.drop 1) ||
      beginsGroup .brace (ts.drop 1) || beginsGroup .paren (ts.drop 1) ||
      beginsOp ".." (ts.drop 1))) ||
    (beginsWord "self" ts && beginsOp "::" (ts.drop 1)) || beginsOp "::" ts ||
    beginsOp "<" ts || beginsWord "Self" ts || beginsWord "super" ts || beginsWord "crate" ts
  if ← peek pathAhead then g.readPathPattern
  else if ← peek (beginsWord "_") then word "_"
  else if ← peek fun ts => beginsLiteral ts || beginsWord "const" ts then
    return (← g.readRangeEnd) ++ (← when (beginsOp "..") g.readRangeRest)
  else if ← peek fun ts => beginsWord "ref" ts || beginsWord "mut" ts || beginsWord "self" ts ||
      beginsIdent ts then g.readBinding
  else if ← peek (beginsOp "&") then seq [op "&", word? "mut", g.single]
  else if ← peek (beginsGroup .paren) then grouped .paren (commaList g.pattern)
  else if ← peek (beginsGroup .bracket) then grouped .bracket (commaList g.pattern)
  else if ← peek fun ts => beginsOp ".." ts && !beginsOp "..." ts then g.readRangeRest
  else failure

/-- A pattern, with alternatives parted by `|`. -/
def readPattern : Speller := do
  let bar (ts : Tokens) := beginsOp "|" ts && !beginsOp "||" ts && !beginsOp "|=" ts
  let leading ← when bar (op "|")
  let first ← g.readSinglePattern
  let others ← many bar (seq [op "|", g.readSinglePattern])
  return leading ++ first ++ others.flatten

end Grammar

end CodecForge.Source
