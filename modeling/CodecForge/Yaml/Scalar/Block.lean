import CodecForge.Yaml.Fold

/-!
# Block scalars

A scalar of whole lines under a header: `|` keeps the line breaks and `>` folds them.  The lines
are indented alike, by as much as the header says or as the first of them is.
-/

namespace CodecForge.Yaml.Block

/-- What becomes of the line breaks at the end. -/
inductive Chomping where
  | clip
  | strip
  | keep
  deriving DecidableEq, Repr

/-- What the header of a block scalar says; the indentation counts from that of the parent. -/
structure Header where
  chomping : Chomping := .clip
  indentation : Option Nat := none
  deriving DecidableEq, Repr

/-- The mark for what becomes of the line breaks at the end. -/
def chomping? (c : Char) : Option Chomping := [('-', .strip), ('+', .keep)].lookup c

/-- The mark for an indentation. -/
def indentation? (c : Char) : Option Nat :=
  if '1' ≤ c && c ≤ '9' then some (c.toNat - '0'.toNat) else none

/-- Reads the marks of a header, which may come in either order. -/
def header : List Char → Header × List Char
  | a :: b :: rest =>
    match chomping? a, indentation? a, chomping? b, indentation? b with
    | some c, _, _, some n => (⟨c, some n⟩, rest)
    | _, some n, some c, _ => (⟨c, some n⟩, rest)
    | some c, _, _, _ => (⟨c, none⟩, b :: rest)
    | _, some n, _, _ => (⟨.clip, some n⟩, b :: rest)
    | _, _, _, _ => ({}, a :: b :: rest)
  | [a] =>
    match chomping? a, indentation? a with
    | some c, _ => (⟨c, none⟩, [])
    | _, some n => (⟨.clip, some n⟩, [])
    | _, _ => ({}, [a])
  | [] => ({}, [])

/-- What follows the line of a header, on which only blanks and a comment may stand. -/
def afterHeader? (s : List Char) : Option (List Char) :=
  match s.dropWhile isBlank with
  | [] => some []
  | c :: rest =>
    if isBreak c then some rest
    else if c = '#' then some ((rest.dropWhile fun c => !isBreak c).drop 1)
    else none

/-- One line of text with its line break, and the text from its start on. -/
structure Line where
  content : List Char
  ending : Option Char
  start : List Char

namespace Line

/-- The line is indented by so many spaces, of which no more than `limit` count. -/
def indentation (l : Line) (limit : Option Nat) : Nat :=
  let n := (l.content.takeWhile (· == ' ')).length
  match limit with
  | none => n
  | some m => min n m

/-- The lines of a text; what was read of the current one stands in `read`, the latest first. -/
def split (start read : List Char) : List Char → List Line
  | [] => [⟨read.reverse, none, start⟩]
  | c :: rest =>
    if isBreak c then ⟨read.reverse, some c, start⟩ :: split rest [] rest
    else split start (c :: read) rest

end Line

/-- Empty lines and what follows them. -/
structure Margin where
  /-- The line breaks of the empty lines. -/
  breaks : List Char
  /-- The greatest indentation seen. -/
  widest : Nat
  rest : List Line

/-- Reads empty lines.  A tab may not take the place of the indentation. -/
def margin? (indent : Option Nat) (widest : Nat) : List Line → Option Margin
  | [] => some ⟨[], widest, []⟩
  | l :: rest =>
    let n := l.indentation indent
    let widest := max widest n
    match l.content.drop n, l.ending with
    | [], some c => (margin? indent widest rest).map fun m => { m with breaks := c :: m.breaks }
    | c :: _, _ =>
      if c = '\t' && indent.all (n < ·) then none else some ⟨[], widest, l :: rest⟩
    | [], none => some ⟨[], widest, l :: rest⟩

/-- What was read so far: its text, the line break after its last line and the empty lines that
follow. -/
structure Content where
  read : List Char := []
  break? : Option Char := none
  emptyLines : List Char := []
  /-- The last line began with a blank. -/
  indented : Bool := false

namespace Content

/-- The text with one more line.  Two lines are folded if neither begins with a blank. -/
def addLine (t : Content) (isFolded : Bool) (l : Line) (content : List Char) : Content :=
  let indented := content.head?.any isBlank
  let joined :=
    if isFolded && t.break? == some '\n' && !t.indented && !indented then
      if t.emptyLines.isEmpty then [' '] else t.emptyLines
    else t.break?.toList ++ t.emptyLines
  { read := t.read ++ joined ++ content, break? := l.ending, indented }

/-- The whole text. -/
def chomped (t : Content) : Chomping → List Char
  | .strip => t.read
  | .clip => t.read ++ t.break?.toList
  | .keep => t.read ++ t.break?.toList ++ t.emptyLines

end Content

/-- Reads the lines of a scalar that are indented by `indent`, given the number of all lines. -/
def readLines? (isFolded : Bool) (indent : Nat) (t : Content) :
    Nat → List Line → Option (Content × List Line)
  | 0, lines => some (t, lines)
  | _, [] => some (t, [])
  | n + 1, l :: rest =>
    let content := l.content.drop indent
    if l.indentation (some indent) < indent || (content.isEmpty && l.ending.isNone) then
      some (t, l :: rest)
    else do
      let m ← margin? (some indent) 0 rest
      let t := { t.addLine isFolded l content with emptyLines := m.breaks }
      readLines? isFolded indent t n m.rest

/-- Reads a block scalar after its mark, where `parent` is the indentation of the collection that it
stands in, if it stands in one.  Gives the text and what follows it. -/
def scan (isFolded : Bool) (parent : Option Nat) (s : List Char) :
    Option (String × List Char) := do
  let (h, s) := header s
  let s ← afterHeader? s
  let given := h.indentation.map (parent.getD 0 + ·)
  let m ← margin? given 0 (Line.split s [] s)
  let least := max 1 ((parent.map (· + 1)).getD 0)
  let indent := given.getD (max m.widest least)
  let (t, lines) ← readLines? isFolded indent { emptyLines := m.breaks } m.rest.length m.rest
  let text := String.ofList (t.chomped h.chomping)
  match lines with
  | [] => return (text, [])
  | l :: _ => return (text, l.start.drop (l.indentation (some indent)))

end CodecForge.Yaml.Block
