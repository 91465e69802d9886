/-!
# Line folding

The characters of a scalar may be spread over lines.  `Folded` holds what was read of it and the
blanks or line breaks that have yet to be joined: a single line break becomes a blank, of several
the first is dropped, and blanks around line breaks do not count.
-/

namespace CodecForge.Yaml

/-- A blank within a line. -/
def isBlank (c : Char) : Bool := c == ' ' || c == '\t'

/-- A line break. -/
def isBreak (c : Char) : Bool := c == '\n' || c == '\u2028' || c == '\u2029'

/-- A word ends here: at a blank, a line break or the end of the text. -/
def endsWord : List Char → Bool
  | [] => true
  | c :: _ => isBlank c || isBreak c

/-- The mark that starts (`-`) or ends (`.`) a document stands here. -/
def beginsDocumentMark (mark : Char) (s : List Char) : Bool :=
  s.take 3 == List.replicate 3 mark && endsWord (s.drop 3)

/-- A mark at the start of a line parts documents here. -/
def partsDocuments (s : List Char) : Bool :=
  beginsDocumentMark '-' s || beginsDocumentMark '.' s

/-- The line break `\n` in place of the sequences that mean the same. -/
def unifyBreaks : List Char → List Char
  | [] => []
  | '\r' :: '\n' :: rest => '\n' :: unifyBreaks rest
  | c :: rest => (if c = '\r' || c = '\u0085' then '\n' else c) :: unifyBreaks rest

/-- What stands between two words of a scalar. -/
inductive Gap where
  /-- Blanks within a line. -/
  | blanks (s : List Char)
  /-- Line breaks: the first, unless it was escaped, and the further ones. -/
  | lines (first : Option Char) (further : List Char)
  deriving DecidableEq, Repr

namespace Gap

/-- The gap between words that touch. -/
def none : Gap := .blanks []

/-- The gap goes over the end of a line. -/
def breaksLine : Gap → Bool
  | .blanks _ => false
  | .lines _ _ => true

/-- The gap with one more blank. -/
def addBlank (c : Char) : Gap → Gap
  | .blanks s => .blanks (s ++ [c])
  | g => g

/-- The gap with one more line break. -/
def addBreak (c : Char) : Gap → Gap
  | .blanks _ => .lines (some c) []
  | .lines first further => .lines first (further ++ [c])

/-- What a gap contributes to the text. -/
def joined : Gap → List Char
  | .blanks s => s
  | .lines (some '\n') [] => [' ']
  | .lines (some '\n') further => further
  | .lines first further => first.toList ++ further

end Gap

/-- A scalar that is being read: its characters, the latest first, and the gap after them. -/
structure Folded where
  read : List Char := []
  gap : Gap := .none
  deriving DecidableEq, Repr

namespace Folded

/-- A blank is read. -/
def blank (f : Folded) (c : Char) : Folded := { f with gap := f.gap.addBlank c }

/-- A line break is read. -/
def lineBreak (f : Folded) (c : Char) : Folded := { f with gap := f.gap.addBreak c }

/-- The gap is joined to the text. -/
def join (f : Folded) : Folded := ⟨f.gap.joined.reverse ++ f.read, .none⟩

/-- A character of the text is read. -/
def push (f : Folded) (c : Char) : Folded := { f.join with read := c :: f.join.read }

/-- The text without the gap at its end. -/
def text (f : Folded) : String := String.ofList f.read.reverse

end Folded

end CodecForge.Yaml
