import CodecForge.Source.Grammar.Block
import CodecForge.Source.Lexer

/-!
# Reading source text

The readers of whole texts.  `Grammar.ofDepth n` reads syntax that is nested up to `n` levels deep;
a text has no more levels than tokens, so `Grammar.of` is deep enough for the tokens it is given.
Each reader of a text refuses it unless all of it is read.
-/

namespace CodecForge.Source

namespace Grammar

/-- The readers that reach one level further than `g`. -/
def deepen (g : Grammar) : Grammar where
  type := g.readType
  expr braces := return (← g.readExpr braces).tokens
  unary braces := return (← g.readUnary braces).tokens
  pattern := g.readPattern
  single := g.readSinglePattern
  block := g.readBlock
  early := g.readEarly
  item := g.readItem

/-- The readers for syntax up to the given depth. -/
def ofDepth : Nat → Grammar
  | 0 => empty
  | n + 1 => (ofDepth n).deepen

/-- The readers for the given tokens: between two levels at least every second one takes a
token. -/
def of (ts : Tokens) : Grammar := ofDepth (2 * Token.weights ts + 4)

end Grammar

/-- Reads all of a token sequence with the reader that a grammar gives. -/
def readAll {α : Type} (p : Grammar → Parser α) (ts : Tokens) : Option α :=
  Parser.all (p (Grammar.of ts)) ts

/-- Reads all of a text with the reader that a grammar gives. -/
def readText {α : Type} (p : Grammar → Parser α) (text : String) : Option α :=
  (tokenize text).bind (readAll p)

/-- The type that a text spells. -/
def Ty.parse? (text : String) : Option Ty := readText (fun g => g.type .allowed) text

/-- The path that a text spells. -/
def Path.parse? (text : String) : Option Path := readText Grammar.readPath text

/-- The identifier that a text is. -/
def Ident.parse? (text : String) : Option Ident := readText (fun _ => Parser.ident) text

/-- The visibility that a text spells; the empty text is one. -/
def Visibility.parse? (text : String) : Option Visibility :=
  readText (fun _ => Grammar.readVisibility) text

end CodecForge.Source
