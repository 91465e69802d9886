import CodecForge.Source.Grammar
import CodecForge.Text.Quoted

/-!
# Entries of annotations

An annotation is a list of entries parted by commas.  Each entry begins with a key, and what
follows the key is read by whoever knows the key.  A refusal is the first that is met: source text
of the wrong form, or a message about what it says.
-/

namespace CodecForge.Annotated

open CodecForge.Source

/-- Why an annotated item is refused. -/
inductive Refusal where
  /-- The text is no sequence of tokens. -/
  | untokenized
  /-- The tokens are not of the right form. -/
  | malformed
  /-- What they say is refused. -/
  | rejected (message : String)
  /-- Generation was cut short. -/
  | aborted (slot : String)
  deriving DecidableEq, Repr

/-- Where a reader of entries stands. -/
structure Place where
  ahead : Tokens
  /-- Some brackets before held more than was read of them. -/
  stray : Bool := false
  deriving Repr

/-- Reads entries or refuses them. -/
abbrev Reading (α : Type) := StateT Place (Except Refusal) α

/-- The key of an entry. -/
structure Key where
  rooted : Bool
  names : List Ident
  deriving Repr

/-- The one word that a key is. -/
def Key.word? (k : Key) : Option String :=
  match k.rooted, k.names with
  | false, [name] => some name.text
  | _, _ => none

/-- The key is the given word. -/
def Key.isWord (k : Key) (word : String) : Bool := k.word? == some word

namespace Reading

/-- Reads with a parser of source text. -/
def parse {α : Type} (p : Parser α) : Reading α := fun place =>
  match p.run place.ahead with
  | some (a, rest) => .ok (a, { place with ahead := rest })
  | none => .error .malformed

/-- Refuses with a message. -/
def reject {α : Type} (message : String) : Reading α := throw (.rejected message)

/-- Tests the tokens ahead. -/
def peek (test : Tokens → Bool) : Reading Bool := return test (← get).ahead

/-- Reads the inside of parentheses. -/
def inParens {α : Type} (r : Reading α) : Reading α := fun place =>
  match place.ahead with
  | .group .paren inner :: rest => do
    let (a, after) ← r.run { place with ahead := inner }
    return (a, ⟨rest, after.stray || !after.ahead.isEmpty⟩)
  | _ => .error .malformed

/-- Reads the key of an entry; any words may stand in it. -/
def key : Reading Key := do
  let rooted ← peek (beginsOp "::")
  let _ ← parse (Parser.op? "::")
  let first ← parse Parser.anyWord
  let others ← parse (Parser.many (beginsOp "::") (do
    let _ ← Parser.op "::"
    Parser.anyWord))
  return ⟨rooted, first :: others⟩

/-- Reads at most `fuel` entries, at least one of them. -/
def entriesFor {σ : Type} (entry : Key → σ → Reading σ) : Nat → σ → Reading σ
  | 0, _ => throw .malformed
  | fuel + 1, s => do
    let s ← entry (← key) s
    if ← peek List.isEmpty then return s
    else
      let _ ← parse (Parser.op ",")
      if ← peek List.isEmpty then return s else entriesFor entry fuel s

/-- Reads entries to the end, at least one; each takes a token. -/
def entries {σ : Type} (entry : Key → σ → Reading σ) (s : σ) : Reading σ := do
  entriesFor entry ((← get).ahead.length + 1) s

/-- Reads the entries between parentheses. -/
def nested {σ : Type} (entry : Key → σ → Reading σ) (s : σ) : Reading σ :=
  inParens (entries entry s)

/-- Reads the text after the sign of equality. -/
def textValue : Reading String := do
  let _ ← parse (Parser.op "=")
  match ← parse Parser.token with
  | .literal text =>
    match Text.stringValue? text with
    | some value => return value
    | none => throw .malformed
  | _ => throw .malformed

/-- Reads a type. -/
def type (g : Grammar) : Reading Ty := parse (g.type .allowed)

end Reading

/-- Reads all of an annotation with the given entries; it may be empty. -/
def readEntries {σ : Type} (entry : Key → σ → Reading σ) (s : σ) (tokens : Tokens) :
    Except Refusal σ := do
  if tokens.isEmpty then return s
  else
    let (s, place) ← (Reading.entries entry s).run ⟨tokens, false⟩
    if place.stray || !place.ahead.isEmpty then throw .malformed
    return s

/-- Reads the entries of one attribute, which stand in brackets. -/
def readAttribute {σ : Type} (entry : Key → σ → Reading σ) (s : σ) (a : Attribute) :
    Except Refusal σ :=
  match a.args with
  | .list _ tokens => readEntries entry s tokens
  | _ => .error .malformed

/-- Reads the entries of all attributes of the given name, one attribute after the other. -/
def readAttributes {σ : Type} (name : String) (entry : Key → σ → Reading σ) (s : σ)
    (attributes : List Attribute) : Except Refusal σ :=
  (attributes.filter fun a => a.isNamed name).foldlM (readAttribute entry) s

end CodecForge.Annotated
