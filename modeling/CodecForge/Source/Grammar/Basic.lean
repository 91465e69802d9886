import CodecForge.Source.Parser

/-!
# The syntactic classes

Types, expressions, patterns, blocks and items contain one another.  A `Grammar` has a reader for
each of these classes (`single` reads a pattern without alternatives, `unary` an operand, `early` an
expression that a block at its head ends); the modules beside this one give, for a grammar whose
readers reach a certain depth of nesting, the readers that reach one level further.
-/

namespace CodecForge.Source

/-- Whether a `+` may go on with a type, making it a sum of bounds. -/
inductive Sums where
  | allowed
  | refused
  deriving DecidableEq, Repr

/-- Whether braces after a name belong to it, so that both are a structure value. -/
inductive Braces where
  | joined
  | separate
  deriving DecidableEq, Repr

/-- What the surroundings of an expression depend on. -/
inductive Shape where
  | plain
  | range
  | comparison
  /-- It ends in a block: no semicolon or comma needs to follow. -/
  | block
  /-- A macro call in braces: no semicolon needs to follow. -/
  | bracedCall
  deriving DecidableEq, Repr

/-- An expression: its spelling and its shape. -/
structure Spelled where
  tokens : Tokens
  shape : Shape
  deriving Repr

/-- A reader for each syntactic class, good up to some depth of nesting. -/
structure Grammar where
  type : Sums → Parser Ty
  expr : Braces → Speller
  unary : Braces → Speller
  pattern : Speller
  single : Speller
  block : Speller
  early : Parser Spelled
  item : Speller

/-- The readers that refuse everything. -/
def Grammar.empty : Grammar where
  type _ := failure
  expr _ := failure
  unary _ := failure
  pattern := failure
  single := failure
  block := failure
  early := failure
  item := failure

end CodecForge.Source
