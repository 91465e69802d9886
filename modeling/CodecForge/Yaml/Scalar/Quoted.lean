import CodecForge.Text.CharSet
import CodecForge.Yaml.Fold

/-!
# Quoted scalars

A scalar in single quotes, inside which a quote is written twice, or in double quotes, inside which
a backslash escapes.  A reader starts after the opening quote and gives the text and what follows
the closing one.
-/

namespace CodecForge.Yaml.Quoted

/-- Reads on after a character, as a gap or as part of the text. -/
def next (f : Folded) (c : Char) : Folded :=
  if isBlank c then f.blank c else if isBreak c then f.lineBreak c else f.push c

/-- Reads a scalar in single quotes; `lineStart` tells whether a line begins here. -/
def single (lineStart : Bool) (f : Folded) : List Char → Option (String × List Char)
  | [] => none
  | '\x27' :: '\x27' :: rest => single false (f.push '\x27') rest
  | '\x27' :: rest => some (f.join.text, rest)
  | c :: rest =>
    if lineStart && partsDocuments (c :: rest) then none
    else single (isBreak c) (next f c) rest

/-- What a scalar in double quotes waits for. -/
inductive Escape where
  | none
  /-- The character after a backslash. -/
  | letter
  /-- So many digits, where those before them spell `value`. -/
  | digits (left value : Nat)
  deriving DecidableEq, Repr

/-- The character that an escaped letter stands for. -/
def escaped? (c : Char) : Option Char :=
  [('0', '\x00'), ('a', '\x07'), ('b', '\x08'), ('t', '\t'), ('\t', '\t'), ('n', '\n'),
    ('v', '\x0b'), ('f', '\x0c'), ('r', '\r'), ('e', '\x1b'), (' ', ' '), ('"', '"'), ('/', '/'),
    ('\\', '\\'), ('N', '\u0085'), ('_', '\u00a0'), ('L', '\u2028'), ('P', '\u2029')].lookup c

/-- The number of digits after an escaped letter. -/
def digitCount? (c : Char) : Option Nat := [('x', 2), ('u', 4), ('U', 8)].lookup c

/-- Reads a scalar in double quotes; `lineStart` tells whether a line begins here. -/
def double (lineStart : Bool) (e : Escape) (f : Folded) : List Char → Option (String × List Char)
  | [] => none
  | c :: rest =>
    if lineStart && partsDocuments (c :: rest) then none
    else match e with
    | .none =>
      if c = '"' then some (f.join.text, rest)
      else if c = '\\' then double false .letter f.join rest
      else double (isBreak c) .none (next f c) rest
    | .letter =>
      if isBreak c then double true .none { f with gap := .lines none [] } rest
      else match escaped? c, digitCount? c with
      | some d, _ => double false .none (f.push d) rest
      | none, some n => double false (.digits n 0) f rest
      | none, none => none
    | .digits left value =>
      match Text.hexDigit? c with
      | none => none
      | some d =>
        let value := 16 * value + d
        if left > 1 then double false (.digits (left - 1) value) f rest
        else if value.isValidChar then double false .none (f.push (Char.ofNat value)) rest
        else none

end CodecForge.Yaml.Quoted
