import CodecForge.Yaml.Fold

/-!
# Plain scalars

A scalar without quotes goes on until a comment, a `:` at the end of a word, a mark of the flow
collection it stands in, or a line that is not indented far enough.
-/

namespace CodecForge.Yaml.Plain

/-- A mark of a flow collection. -/
def isFlowMark (c : Char) : Bool := [',', '[', ']', '\x7b', '\x7d'].contains c

/-- A character that has a meaning of its own at the start of a scalar. -/
def isIndicator (c : Char) : Bool :=
  ['-', '?', ':', ',', '[', ']', '\x7b', '\x7d', '#', '&', '*', '!', '|', '>', '\x27', '"', '%',
    '@', '\x60'].contains c

/-- A plain scalar may start here. -/
def starts (inFlow : Bool) : List Char → Bool
  | [] => false
  | c :: rest =>
    !(endsWord [c] || isIndicator c) || (c = '-' && !endsWord rest) ||
      (!inFlow && (c = '?' || c = ':') && !endsWord rest)

/-- The scalar ends before this character, with `rest` after it. -/
def endsAt (inFlow : Bool) (c : Char) (rest : List Char) : Bool :=
  (c = ':' && endsWord rest) || (inFlow && isFlowMark c)

/-- A `:` before a mark of a flow collection. -/
def isAmbiguous (inFlow : Bool) (c : Char) (rest : List Char) : Bool :=
  inFlow && c = ':' && rest.head?.any fun d => isFlowMark d || d = '?'

/-- The first word after a gap does not belong to the scalar: it is a comment, parts documents, or
stands on a line that is not indented by `indent`. -/
def endsAfterGap (inFlow : Bool) (indent column : Nat) (s : List Char) : Bool :=
  s.head? == some '#' || (column = 0 && partsDocuments s) || (!inFlow && column < indent)

/-- Reads a plain scalar from the given column on, and gives what follows it. -/
def scan (inFlow : Bool) (indent column : Nat) (f : Folded) :
    List Char → Option (Folded × List Char)
  | [] => some (f, [])
  | c :: rest =>
    if isBlank c then
      if f.gap.breaksLine && column < indent && c = '\t' then none
      else scan inFlow indent (column + 1) (f.blank c) rest
    else if isBreak c then scan inFlow indent 0 (f.lineBreak c) rest
    else if f.gap ≠ .none && endsAfterGap inFlow indent column (c :: rest) then
      some (f, c :: rest)
    else if isAmbiguous inFlow c rest then none
    else if endsAt inFlow c rest then some (f, c :: rest)
    else scan inFlow indent (column + 1) (f.push c) rest

end CodecForge.Yaml.Plain
