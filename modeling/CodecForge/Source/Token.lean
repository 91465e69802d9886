/-!
# Tokens

Source text is a sequence of tokens, where a bracketed part is one token that holds a sequence of
its own.  `Token.text` is the text of a token and `spell` that of a sequence: tokens are parted by
one space, and a mark that is glued to its successor is followed by none.
-/

namespace CodecForge.Source

/-- The brackets around a group. -/
inductive Delimiter where
  | paren
  | bracket
  | brace
  deriving DecidableEq, Repr

/-- What stands before the tokens of a group. -/
def Delimiter.opening : Delimiter → String
  | .paren => "("
  | .bracket => "["
  | .brace => "\x7b "

/-- What stands after the tokens of a group. -/
def Delimiter.closing : Delimiter → String
  | .paren => ")"
  | .bracket => "]"
  | .brace => "\x7d"

/-- One token.  A mark is one character of an operator; it is glued when the operator goes on with
the next mark. -/
inductive Token where
  | ident (name : String)
  | lifetime (name : String)
  | mark (c : Char) (glued : Bool)
  | literal (text : String)
  | group (delimiter : Delimiter) (inner : List Token)
  deriving Repr

abbrev Tokens := List Token

namespace Token

mutual

/-- The text of one token. -/
def text : Token → String
  | .ident name => name
  | .lifetime name => "'" ++ name
  | .mark c _ => c.toString
  | .literal t => t
  | .group d inner =>
    d.opening ++ spell inner ++ (if d = .brace ∧ !inner.isEmpty then " " else "") ++ d.closing

/-- The text of a token sequence. -/
def spell : List Token → String
  | [] => ""
  | [t] => t.text
  | .mark c true :: rest => c.toString ++ spell rest
  | t :: rest => t.text ++ " " ++ spell rest

end

mutual

/-- The number of tokens, those inside groups included. -/
def weight : Token → Nat
  | .group _ inner => 1 + weights inner
  | _ => 1

/-- The number of tokens in a sequence, those inside groups included. -/
def weights : List Token → Nat
  | [] => 0
  | t :: rest => t.weight + weights rest

end

/-- The marks of an operator, glued to one another. -/
def ofMarks : List Char → Tokens
  | [] => []
  | [c] => [.mark c false]
  | c :: rest => .mark c true :: ofMarks rest

/-- The tokens of an operator such as `::` or `->`. -/
def op (s : String) : Tokens := ofMarks s.toList

/-- A parenthesised group. -/
def parens (inner : Tokens) : Token := .group .paren inner

/-- A group in square brackets. -/
def brackets (inner : Tokens) : Token := .group .bracket inner

/-- A group in braces. -/
def braces (inner : Tokens) : Token := .group .brace inner

/-- The token written by a word without brackets or blanks. -/
def ofWord (w : String) : Tokens :=
  match w.toList with
  | [] => []
  | '\x27' :: name => [.lifetime (String.ofList name)]
  | c :: _ =>
    if c == '"' || c.isDigit then [.literal w]
    else if c.isAlpha || c == '_' then [.ident w]
    else op w

/-- The tokens of a line of words parted by single blanks. -/
def words (line : String) : Tokens :=
  (line.toList.splitOn ' ').flatMap fun w => ofWord (String.ofList w)

end Token

end CodecForge.Source
