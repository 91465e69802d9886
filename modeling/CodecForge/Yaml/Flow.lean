import CodecForge.Schema.Document

/-!
# Writing documents

`Document.flow` writes a document on one line, as flow collections without blanks.
-/

namespace CodecForge.Schema.Document

/-- One of the sixteen digits. -/
def hexLetter (n : Nat) : Char := Nat.digitChar (n % 16)

/-- The written form of a character in double quotes. -/
def flowChar (c : Char) : List Char :=
  if c = '"' || c = '\\' then ['\\', c]
  else if c = '\x08' then ['\\', 'b']
  else if c = '\t' then ['\\', 't']
  else if c = '\n' then ['\\', 'n']
  else if c = '\x0c' then ['\\', 'f']
  else if c = '\r' then ['\\', 'r']
  else if c.toNat < 32 then ['\\', 'u', '0', '0', hexLetter (c.toNat / 16), hexLetter c.toNat]
  else [c]

/-- A text in double quotes. -/
def flowText (s : String) : String :=
  String.ofList ('"' :: s.toList.flatMap flowChar ++ ['"'])

mutual

/-- A document on one line. -/
def flow : Document → String
  | .null => "null"
  | .bool b => if b then "true" else "false"
  | .integer n => toString n
  | .decimal t => t
  | .text s => flowText s
  | .list items => "[" ++ ",".intercalate (flowItems items) ++ "]"
  | .mapping entries => "\x7b" ++ ",".intercalate (flowEntries entries) ++ "\x7d"

/-- The members of a list, each on one line. -/
def flowItems : List Document → List String
  | [] => []
  | d :: rest => d.flow :: flowItems rest

/-- The entries of a mapping, each on one line. -/
def flowEntries : List (String × Document) → List String
  | [] => []
  | (key, d) :: rest => (flowText key ++ ":" ++ d.flow) :: flowEntries rest

end

end CodecForge.Schema.Document
