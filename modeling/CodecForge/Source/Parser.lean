import CodecForge.Source.Type

/-!
# Reading token sequences

A `Parser` reads from the front of a token sequence or refuses it.  The readers of syntax that is
kept as its spelling give back the tokens that spell it, with each operator in its own right: the
marks of two operators that were written without a blank between them are parted.
-/

namespace CodecForge.Source

/-- Reads a value from the front of a token sequence, or refuses it. -/
abbrev Parser (α : Type) := StateT Tokens Option α

/-- A reader of syntax that is kept as its spelling. -/
abbrev Speller := Parser Tokens

/-- The words that are no identifiers. -/
def keywords : List String :=
  ["_", "abstract", "as", "async", "await", "become", "box", "break", "const", "continue",
   "crate", "do", "dyn", "else", "enum", "extern", "false", "final", "fn", "for", "if", "impl",
   "in", "let", "loop", "macro", "match", "mod", "move", "mut", "override", "priv", "pub", "ref",
   "return", "Self", "self", "static", "struct", "super", "trait", "true", "try", "type",
   "typeof", "unsafe", "unsized", "use", "virtual", "where", "while", "yield"]

/-- The word may stand for an identifier. -/
def isIdentWord (w : String) : Bool := !keywords.contains w

/-- The sequence begins with the marks of an operator; what follows the last of them does not
matter, so `>>` begins with `>`. -/
def beginsMarks : List Char → Tokens → Bool
  | [c], .mark c' _ :: _ => c == c'
  | c :: cs, .mark c' true :: rest => c == c' && beginsMarks cs rest
  | _, _ => false

/-- The sequence begins with an operator. -/
def beginsOp (s : String) (ts : Tokens) : Bool := beginsMarks s.toList ts

/-- The sequence begins with the given word. -/
def beginsWord (w : String) : Tokens → Bool
  | .ident name :: _ => name == w
  | _ => false

/-- The sequence begins with some word. -/
def beginsAnyWord : Tokens → Bool
  | .ident _ :: _ => true
  | _ => false

/-- The sequence begins with an identifier. -/
def beginsIdent : Tokens → Bool
  | .ident name :: _ => isIdentWord name
  | _ => false

/-- The sequence begins with a lifetime. -/
def beginsLifetime : Tokens → Bool
  | .lifetime _ :: _ => true
  | _ => false

/-- The sequence begins with a group in the given brackets. -/
def beginsGroup (d : Delimiter) : Tokens → Bool
  | .group d' _ :: _ => d == d'
  | _ => false

/-- A literal that is a number. -/
def isNumber (text : String) : Bool := text.toList.head?.any Char.isDigit

/-- The sequence begins with a literal, a truth value or a negative number. -/
def beginsLiteral : Tokens → Bool
  | .literal _ :: _ => true
  | .ident name :: _ => name == "true" || name == "false"
  | .mark '-' _ :: .literal text :: _ => isNumber text
  | _ => false

namespace Parser

/-- Tests the tokens ahead. -/
def peek (test : Tokens → Bool) : Parser Bool := return test (← get)

/-- Tests the tokens behind the next `n`. -/
def peekAfter (n : Nat) (test : Tokens → Bool) : Parser Bool := return test ((← get).drop n)

/-- Nothing is left to read. -/
def atEnd : Parser Bool := peek List.isEmpty

/-- Refuses unless the condition holds. -/
def require (condition : Bool) : Parser Unit := if condition then pure () else failure

/-- Reads an operator. -/
def op (s : String) : Speller := do
  require (← peek (beginsOp s))
  modify (·.drop s.length)
  return Token.op s

/-- Reads the given word. -/
def word (w : String) : Speller := do
  require (← peek (beginsWord w))
  modify (·.drop 1)
  return [.ident w]

/-- Reads any word. -/
def anyWord : Parser Ident := do
  match ← get with
  | .ident name :: rest => set rest; return ⟨name⟩
  | _ => failure

/-- Reads an identifier. -/
def ident : Parser Ident := do
  require (← peek beginsIdent)
  anyWord

/-- Reads a lifetime. -/
def lifetime : Parser String := do
  match ← get with
  | .lifetime name :: rest => set rest; return name
  | _ => failure

/-- Reads one token. -/
def token : Parser Token := do
  match ← get with
  | t :: rest => set rest; return t
  | [] => failure

/-- Reads all that is left. -/
def remainder : Speller := do
  let ts ← get
  set ([] : Tokens)
  return ts

/-- Reads a literal, a truth value or a negative number. -/
def literal : Speller := do
  require (← peek beginsLiteral)
  if ← peek (beginsOp "-") then
    modify (·.drop 1)
    return Token.op "-" ++ [← token]
  else return [← token]

/-- Applies a reader to all of the given tokens. -/
def all {α : Type} (p : Parser α) (ts : Tokens) : Option α :=
  match p.run ts with
  | some (a, []) => some a
  | _ => none

/-- Reads a group in the given brackets, all of whose tokens `p` reads. -/
def group {α : Type} (d : Delimiter) (p : Parser α) : Parser α := do
  match ← get with
  | .group d' inner :: rest =>
    require (d == d')
    match all p inner with
    | some a => set rest; return a
    | none => failure
  | _ => failure

/-- Reads a group whose inside is spelled. -/
def grouped (d : Delimiter) (p : Speller) : Speller := do
  return [.group d (← group d p)]

/-- Reads a group in any brackets and keeps its tokens as they are. -/
def anyGroup : Speller := do
  match ← get with
  | t@(.group _ _) :: rest => set rest; return [t]
  | _ => failure

/-- Reads with `p` if the test on the tokens ahead holds, and reads nothing otherwise. -/
def when (test : Tokens → Bool) (p : Speller) : Speller := do
  if ← peek test then p else return []

/-- Reads an operator if it is there. -/
def op? (s : String) : Speller := when (beginsOp s) (op s)

/-- Reads a word if it is there. -/
def word? (w : String) : Speller := when (beginsWord w) (word w)

/-- Reads one piece of syntax after the other. -/
def seq : List Speller → Speller
  | [] => return []
  | p :: rest => return (← p) ++ (← seq rest)

/-- Reads parts while the test on the tokens ahead holds, at most `fuel` of them. -/
def repeatFor {α : Type} (test : Tokens → Bool) (p : Parser α) : Nat → Parser (List α)
  | 0 => return []
  | fuel + 1 => do
    if ← peek test then return (← p) :: (← repeatFor test p fuel) else return []

/-- Reads parts while the test on the tokens ahead holds; each part takes a token. -/
def many {α : Type} (test : Tokens → Bool) (p : Parser α) : Parser (List α) := do
  repeatFor test p ((← get).length + 1)

/-- Reads parts and the separators between them up to where `stop` holds, at most `fuel` of them:
the parts, and whether a separator stands after the last. -/
def separatedFor {α : Type} (stop : Tokens → Bool) (sep : String) (p : Parser α) :
    Nat → Parser (List α × Bool)
  | 0 => failure
  | fuel + 1 => do
    if ← peek stop then return ([], true)
    else
      let a ← p
      if ← peek stop then return ([a], false)
      else
        let _ ← op sep
        let (rest, trailing) ← separatedFor stop sep p fuel
        return (a :: rest, trailing)

/-- Reads parts with separators between them up to where `stop` holds. -/
def separated {α : Type} (stop : Tokens → Bool) (sep : String) (p : Parser α) :
    Parser (List α × Bool) := do
  let (parts, trailing) ← separatedFor stop sep p ((← get).length + 1)
  return (parts, trailing && !parts.isEmpty)

/-- Reads parts with commas between them to the end. -/
def listed {α : Type} (p : Parser α) : Parser (List α × Bool) := separated List.isEmpty "," p

/-- Reads parts with commas between them to the end, as their spelling. -/
def commaList (p : Speller) : Speller := do
  let (parts, trailing) ← listed p
  return commas parts trailing

end Parser

end CodecForge.Source
