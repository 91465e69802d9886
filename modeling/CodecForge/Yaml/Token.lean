import CodecForge.Yaml.Scalar
import CodecForge.Yaml.Scalar.Block
import CodecForge.Yaml.Scalar.Plain
import CodecForge.Yaml.Scalar.Quoted

/-!
# Tokens

`Token.scan?` reads text into tokens, or refuses it.  Indentation becomes tokens that open and close
block collections, and a `:` shows that what came before it on its line is a key.  Directives,
anchors, aliases and tags are refused.
-/

namespace CodecForge.Yaml

inductive Token where
  | documentStart
  | documentEnd
  /-- The first `-` of a column. -/
  | openList
  /-- The first key of a column. -/
  | openMapping
  /-- The end of what the first `-` or key of a column opened. -/
  | closeBlock
  /-- `[` -/
  | openFlowList
  /-- `]` -/
  | closeFlowList
  /-- `{` -/
  | openFlowMapping
  /-- `}` -/
  | closeFlowMapping
  /-- `-` -/
  | dash
  /-- `,` -/
  | comma
  /-- A key follows. -/
  | key
  /-- A value follows. -/
  | value
  | scalar (s : Scalar)
  deriving DecidableEq, Repr

/-- A place in a text: what follows it, and where it stands. -/
structure Cursor where
  rest : List Char
  line : Nat := 0
  column : Nat := 0
  /-- The number of characters before it. -/
  offset : Nat := 0

namespace Cursor

/-- The place after the next character `c`. -/
def step (p : Cursor) (c : Char) : Cursor :=
  if isBreak c then ⟨p.rest.drop 1, p.line + 1, 0, p.offset + 1⟩
  else ⟨p.rest.drop 1, p.line, p.column + 1, p.offset + 1⟩

/-- The place after the next `n` characters. -/
def advance (p : Cursor) (n : Nat) : Cursor := (p.rest.take n).foldl step p

/-- The later place that `rest` follows. -/
def moveTo (p : Cursor) (rest : List Char) : Cursor := p.advance (p.rest.length - rest.length)

end Cursor

/-- A place where a key starts if a `:` follows. -/
structure KeyMark where
  /-- The number of tokens before it. -/
  tokens : Nat
  place : Cursor
  /-- It stands where the mapping around it goes on, so it has to be a key. -/
  isRequired : Bool

namespace KeyMark

/-- A key has to end on its line, and within 1024 characters. -/
def isPast (k : KeyMark) (p : Cursor) : Bool :=
  k.place.line < p.line || k.place.offset + 1024 < p.offset

end KeyMark

/-- A scan on its way through a text. -/
structure Scan where
  place : Cursor
  /-- The tokens so far, the latest first. -/
  tokens : List Token := []
  /-- The columns of the block collections that are open, the innermost first. -/
  indents : List Nat := []
  /-- A key or a collection may start here. -/
  keyAllowed : Bool := true
  /-- What may turn out to be a key. -/
  key : Option KeyMark := none
  /-- The same, for each collection around the flow collections that are open. -/
  outerKeys : List (Option KeyMark) := []

namespace Scan

/-- A flow collection is open. -/
def inFlow (s : Scan) : Bool := !s.outerKeys.isEmpty

/-- Adds a token. -/
def add (s : Scan) (t : Token) : Scan := { s with tokens := t :: s.tokens }

/-- Adds tokens behind the first `n`. -/
def addAt (s : Scan) (n : Nat) (ts : List Token) : Scan :=
  let later := s.tokens.length - n
  { s with tokens := s.tokens.take later ++ ts.reverse ++ s.tokens.drop later }

/-- Goes on by `n` characters. -/
def advance (s : Scan) (n : Nat) : Scan := { s with place := s.place.advance n }

/-! ### Keys -/

/-- Gives up what might have been a key, unless it had to be one. -/
def dropKey (s : Scan) : Option Scan :=
  if s.key.any KeyMark.isRequired then none else some { s with key := none }

/-- Gives up the keys that are past, none of which may be required. -/
def dropPastKeys (s : Scan) : Option Scan :=
  let isPast (k : Option KeyMark) := k.any (KeyMark.isPast · s.place)
  let keep (k : Option KeyMark) := if isPast k then none else k
  if (s.key :: s.outerKeys).any fun k => isPast k && k.any KeyMark.isRequired then none
  else some { s with key := keep s.key, outerKeys := s.outerKeys.map keep }

/-- Marks this place as one where a key may start. -/
def markKey (s : Scan) : Option Scan :=
  if s.keyAllowed then do
    let s ← s.dropKey
    return { s with key := some {
      tokens := s.tokens.length
      place := s.place
      isRequired := !s.inFlow && s.indents.head? == some s.place.column } }
  else some s

/-! ### Indentation -/

/-- A block collection starts at the column unless one is open there. -/
def isIndented (s : Scan) (column : Nat) : Bool := !s.inFlow && s.indents.head?.all (· < column)

/-- Opens a block collection at this place unless one is open in its column. -/
def indent (s : Scan) (t : Token) : Scan :=
  if s.isIndented s.place.column then { s.add t with indents := s.place.column :: s.indents }
  else s

/-- Closes the block collections that do not reach as far to the left as `column`. -/
def dedent (s : Scan) (column : Nat) : Scan :=
  if s.inFlow then s
  else
    let closed := s.indents.takeWhile (column < ·)
    { s with
      tokens := closed.map (fun _ => .closeBlock) ++ s.tokens
      indents := s.indents.drop closed.length }

/-- Closes all block collections. -/
def dedentAll (s : Scan) : Scan :=
  if s.inFlow then s
  else { s with tokens := s.indents.map (fun _ => .closeBlock) ++ s.tokens, indents := [] }

/-! ### Blanks and comments -/

/-- What follows blanks, line breaks and comments, and whether a key may start there.  A tab does
not count as a blank where a key may start. -/
def skip (inFlow comment keyAllowed : Bool) : List Char → Bool × List Char
  | [] => (keyAllowed, [])
  | c :: rest =>
    if isBreak c then skip inFlow false (keyAllowed || !inFlow) rest
    else if comment then skip inFlow true keyAllowed rest
    else if c = '#' then skip inFlow true keyAllowed rest
    else if c = ' ' || (c = '\t' && (inFlow || !keyAllowed)) then skip inFlow false keyAllowed rest
    else (keyAllowed, c :: rest)

/-- Goes on to where the next token starts. -/
def skipBlanks (s : Scan) : Scan :=
  let (keyAllowed, rest) := skip s.inFlow false s.keyAllowed s.place.rest
  { s with place := s.place.moveTo rest, keyAllowed }

/-! ### Tokens -/

/-- Reads a mark between documents. -/
def documentMark (s : Scan) (t : Token) : Option Scan := do
  let s ← s.dedentAll.dropKey
  return { (s.advance 3).add t with keyAllowed := false }

/-- Reads the mark that opens a flow collection. -/
def openFlow (s : Scan) (t : Token) : Option Scan := do
  let s ← s.markKey
  return { (s.advance 1).add t with
    keyAllowed := true
    key := none
    outerKeys := s.key :: s.outerKeys }

/-- Reads the mark that closes a flow collection. -/
def closeFlow (s : Scan) (t : Token) : Option Scan := do
  let s ← s.dropKey
  return { (s.advance 1).add t with
    keyAllowed := false
    key := s.outerKeys.head?.join
    outerKeys := s.outerKeys.drop 1 }

/-- Reads a comma. -/
def comma (s : Scan) : Option Scan := do
  let s ← s.dropKey
  return { (s.advance 1).add .comma with keyAllowed := true }

/-- Reads a dash. -/
def dash (s : Scan) : Option Scan := do
  if !s.inFlow && !s.keyAllowed then none
  let s ← (s.indent .openList).dropKey
  return { (s.advance 1).add .dash with keyAllowed := true }

/-- Reads the mark of a key. -/
def explicitKey (s : Scan) : Option Scan := do
  if !s.inFlow && !s.keyAllowed then none
  let s ← (s.indent .openMapping).dropKey
  return { (s.advance 1).add .key with keyAllowed := !s.inFlow }

/-- Reads a colon.  What it shows to be a key gets its mark, and may open a mapping. -/
def colon (s : Scan) : Option Scan :=
  match s.key with
  | some k =>
    let column := k.place.column
    let s' := if s.isIndented column then
        { s.addAt k.tokens [.openMapping, .key] with indents := column :: s.indents }
      else s.addAt k.tokens [.key]
    some { (s'.advance 1).add .value with key := none, keyAllowed := false }
  | none =>
    if !s.inFlow && !s.keyAllowed then none
    else some { ((s.indent .openMapping).advance 1).add .value with keyAllowed := !s.inFlow }

/-- Reads a block scalar. -/
def blockScalar (s : Scan) (isFolded : Bool) : Option Scan := do
  let s ← s.dropKey
  let (text, rest) ← Block.scan isFolded s.indents.head? (s.place.rest.drop 1)
  return { s.add (.scalar ⟨text, false⟩) with place := s.place.moveTo rest, keyAllowed := true }

/-- Reads a quoted scalar. -/
def quotedScalar (s : Scan) (read : List Char → Option (String × List Char)) : Option Scan := do
  let s ← s.markKey
  let (text, rest) ← read (s.place.rest.drop 1)
  return { s.add (.scalar ⟨text, false⟩) with place := s.place.moveTo rest, keyAllowed := false }

/-- Reads a plain scalar.  After one that ends on a further line a key may start. -/
def plainScalar (s : Scan) : Option Scan := do
  let s ← s.markKey
  let indent := (s.indents.head?.map (· + 1)).getD 0
  let (f, rest) ← Plain.scan s.inFlow indent s.place.column {} s.place.rest
  return { s.add (.scalar ⟨f.text, true⟩) with
    place := s.place.moveTo rest
    keyAllowed := f.gap.breaksLine }

/-- Reads the token that starts with the character `c`, which `rest` follows. -/
def token (s : Scan) (c : Char) (rest : List Char) : Option Scan :=
  let lineStart := s.place.column = 0
  let isMark := endsWord rest
  if lineStart && c = '%' then none
  else if lineStart && beginsDocumentMark '-' (c :: rest) then s.documentMark .documentStart
  else if lineStart && beginsDocumentMark '.' (c :: rest) then s.documentMark .documentEnd
  else if c = '[' then s.openFlow .openFlowList
  else if c = '\x7b' then s.openFlow .openFlowMapping
  else if c = ']' then s.closeFlow .closeFlowList
  else if c = '\x7d' then s.closeFlow .closeFlowMapping
  else if c = ',' then s.comma
  else if c = '-' && isMark then s.dash
  else if c = '?' && (s.inFlow || isMark) then s.explicitKey
  else if c = ':' && (s.inFlow || isMark) then s.colon
  else if (c = '|' || c = '>') && !s.inFlow then s.blockScalar (c = '>')
  else if c = '\x27' then s.quotedScalar (Quoted.single false {})
  else if c = '"' then s.quotedScalar (Quoted.double false .none {})
  else if Plain.starts s.inFlow (c :: rest) then s.plainScalar
  else none

/-- Reads up to `n` tokens and the end of the text. -/
def run : Nat → Scan → Option (List Token)
  | 0, _ => none
  | n + 1, s => do
    let s ← s.skipBlanks.dropPastKeys
    match s.place.rest with
    | [] => return (← s.dedentAll.dropKey).tokens.reverse
    | c :: rest => run n (← (s.dedent s.place.column).token c rest)

end Scan

/-- The character may stand in a text. -/
def isAllowed (c : Char) : Bool :=
  c = '\t' || c = '\n' || c = '\r' || (' ' ≤ c && c ≤ '~') || c = '\u0085' ||
    ('\u00a0' ≤ c && c ≠ '\ufffe' && c ≠ '\uffff')

/-- The tokens of a text, which may begin with a byte order mark. -/
def Token.scan? (text : String) : Option (List Token) :=
  let s := if text.toList.head? = some '\ufeff' then text.toList.drop 1 else text.toList
  if s.all isAllowed then Scan.run (s.length + 1) { place := ⟨unifyBreaks s, 0, 0, 0⟩ } else none

end CodecForge.Yaml
