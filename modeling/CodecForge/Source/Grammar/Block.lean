import CodecForge.Source.Grammar.Item

/-!
# Reading blocks

The readers of statements and of the blocks made of them, kept as their spelling.
-/

namespace CodecForge.Source

namespace Grammar

open CodecForge.Source.Parser

variable (g : Grammar)

/-- A `let` statement. -/
def readLet : Speller := do
  let value : Speller := do
    let sign ← op "="
    let first ← g.expr .joined
    return sign ++ first ++ (← when (beginsWord "else") (seq [word "else", g.block]))
  seq [word "let", g.single, when (beginsOp ":") (seq [op ":", g.typeTokens .allowed]),
    when (beginsOp "=") value, op ";"]

/-- What a macro call applies to, if one comes next. -/
def afterBang? (ts : Tokens) : Option Tokens :=
  match readPlainPath.run ts with
  | some (_, rest) => if beginsOp "!" rest then some (rest.drop 1) else none
  | none => none

/-- A macro call in braces that is a statement of its own. -/
def beginsBracedCall (ts : Tokens) : Bool :=
  (afterBang? ts).any fun rest => beginsGroup .brace rest &&
    !(beginsOp "." (rest.drop 1) && !beginsOp ".." (rest.drop 1)) && !beginsOp "?" (rest.drop 1)

/-- An item comes next, and no expression that begins with the same word. -/
def beginsItem (ts : Tokens) : Bool :=
  let next := ts.drop 1
  let third := next.drop 1
  ["pub", "extern", "use", "fn", "mod", "type", "struct", "enum", "trait", "impl", "macro"].any
      (beginsWord · ts) ||
    (beginsWord "static" ts && (beginsWord "mut" next || beginsIdent next)) ||
    (beginsWord "const" ts && !(beginsGroup .brace next || beginsWord "static" next ||
      (beginsWord "async" next && !(beginsWord "unsafe" third || beginsWord "extern" third ||
        beginsWord "fn" third)) || beginsWord "move" next || beginsOp "|" next)) ||
    (beginsWord "unsafe" ts && !beginsGroup .brace next) ||
    (beginsWord "async" ts && (beginsWord "unsafe" next || beginsWord "extern" next ||
      beginsWord "fn" next)) ||
    (beginsWord "union" ts && beginsIdent next) ||
    (beginsWord "auto" ts && beginsWord "trait" next) ||
    (beginsWord "default" ts && (beginsWord "unsafe" next || beginsWord "impl" next)) ||
    (afterBang? ts).any fun rest => beginsIdent rest || beginsWord "try" rest

/-- A statement with the semicolons behind it. -/
def readStatement : Speller := do
  if ← peek (beginsOp ";") then op ";"
  else
    let before ← get
    let attributes ← g.readOuterAttributes
    if ← peek beginsBracedCall then
      let (rooted, names) ← readPlainPath
      let path := (PathOf.ofNames rooted (names.map Ident.text)).tokens
      return attributes ++ path ++ (← seq [op "!", anyGroup])
    else if ← peek (beginsWord "let") then return attributes ++ (← g.readLet)
    else if ← peek beginsItem then
      set before
      g.item
    else
      let value ← g.early
      let semicolon ← op? ";"
      let ended := value.shape = .block || value.shape = .bracedCall
      require (!semicolon.isEmpty || ended || (← atEnd))
      return attributes ++ value.tokens ++ semicolon

/-- A block in braces. -/
def readBlock : Speller :=
  grouped .brace (seq [g.readInnerAttributes,
    return (← many (!·.isEmpty) g.readStatement).flatten])

end Grammar

end CodecForge.Source
