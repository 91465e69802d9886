import CodecForge.Text.Printable

/-!
# Quoted literals

`quote` writes a text as a string literal in double quotes, and `Literal.value?` reads the text
that a string literal stands for, in its plain and its raw form.
-/

namespace CodecForge.Text

/-- The digits of a number in hexadecimal, without leading zeros. -/
def hexDigits (upper : Bool) (n : Nat) : List Char :=
  let digits := Nat.toDigits 16 n
  if upper then digits.map Char.toUpper else digits

/-- A number in hexadecimal capitals, filled up with zeros to `width` digits. -/
def hexPadded (width n : Nat) : String :=
  let digits := hexDigits true n
  String.ofList (List.replicate (width - digits.length) '0' ++ digits)

/-- The written form of one character inside double quotes, where `next` is the one after it. -/
def escapeChar (next : Option Char) (c : Char) : List Char :=
  if c = '\x00' then
    if next.any fun d => '0' ≤ d && d ≤ '7' then ['\\', 'x', '0', '0'] else ['\\', '0']
  else if c = '\t' then ['\\', 't']
  else if c = '\r' then ['\\', 'r']
  else if c = '\n' then ['\\', 'n']
  else if c = '"' then ['\\', '"']
  else if c = '\\' then ['\\', '\\']
  else if isPrintable c then [c]
  else ['\\', 'u', '\x7b'] ++ hexDigits false c.toNat ++ ['\x7d']

/-- The written form of the characters inside double quotes. -/
def escape : List Char → List Char
  | [] => []
  | c :: rest => escapeChar rest.head? c ++ escape rest

/-- A text as a string literal. -/
def quote (s : String) : String :=
  String.ofList ('"' :: escape s.toList ++ ['"'])

/-- What a scan of the inside of a plain string literal waits for. -/
inductive EscapeState where
  | plain
  /-- after a carriage return -/
  | carriage
  /-- after a backslash -/
  | escape
  /-- after `\x` -/
  | highDigit
  /-- after `\x` and its first digit -/
  | lowDigit (high : Nat)
  /-- after `\u` -/
  | opening
  /-- inside the braces of `\u`, with the number of digits and their value -/
  | digits (count value : Nat)
  /-- in the blanks after a backslash at the end of a line -/
  | gap
  /-- in those blanks, after a carriage return -/
  | gapCarriage
  deriving DecidableEq, Repr

/-- Which characters and escapes a literal admits. -/
structure LiteralKind where
  /-- Only ASCII may stand in it, and `\x` reaches 255. -/
  bytes : Bool := false
  /-- The zero character may not stand in it. -/
  nonzero : Bool := false

/-- One step of a scan: it closes the literal, or goes on and may add a character. -/
inductive EscapeStep where
  | close
  | next (state : EscapeState) (added : Option Char)

namespace LiteralKind

/-- The step on a character that no escape is open for. -/
def plainStep (k : LiteralKind) (c : Char) : Option EscapeStep :=
  if c = '"' then some .close
  else if c = '\r' then some (.next .carriage none)
  else if c = '\\' then some (.next .escape none)
  else if k.bytes && c.toNat ≥ 128 then none
  else if k.nonzero && c = '\x00' then none
  else some (.next .plain (some c))

/-- The character after a backslash. -/
def escapeStep (k : LiteralKind) (c : Char) : Option EscapeStep :=
  if c = 'x' then some (.next .highDigit none)
  else if c = 'n' then some (.next .plain (some '\n'))
  else if c = 'r' then some (.next .plain (some '\r'))
  else if c = 't' then some (.next .plain (some '\t'))
  else if c = '\\' || c = '"' || c = '\x27' then some (.next .plain (some c))
  else if c = '0' && !k.nonzero then some (.next .plain (some '\x00'))
  else if c = 'u' && !k.bytes then some (.next .opening none)
  else if c = '\n' then some (.next .gap none)
  else if c = '\r' then some (.next .gapCarriage none)
  else none

/-- One step of the scan of a plain string literal, after its opening quote. -/
def step (k : LiteralKind) (state : EscapeState) (c : Char) : Option EscapeStep :=
  match state with
  | .plain => k.plainStep c
  | .carriage => if c = '\n' then some (.next .plain (some '\n')) else none
  | .escape => k.escapeStep c
  | .highDigit => do
    let d ← hexDigit? c
    if d < 8 || k.bytes || k.nonzero then some (.next (.lowDigit d) none) else none
  | .lowDigit high => do
    let d ← hexDigit? c
    if k.nonzero && 16 * high + d = 0 then none
    else some (.next .plain (some (Char.ofNat (16 * high + d))))
  | .opening => if c = '\x7b' then some (.next (.digits 0 0) none) else none
  | .digits count value =>
    if c = '_' && count > 0 then some (.next state none)
    else if c = '\x7d' && count > 0 then
      if value.isValidChar && !(k.nonzero && value = 0) then
        some (.next .plain (some (Char.ofNat value)))
      else none
    else do
      let d ← hexDigit? c
      if count = 6 then none else some (.next (.digits (count + 1) (16 * value + d)) none)
  | .gap =>
    if c = '\r' then some (.next .gapCarriage none)
    else if c = ' ' || c = '\t' || c = '\n' then some (.next .gap none)
    else k.plainStep c
  | .gapCarriage => if c = '\n' then some (.next .gap none) else none

/-- Scans a plain string literal after its opening quote: the characters it stands for, and what
follows its closing quote. -/
def scan (k : LiteralKind) : EscapeState → List Char → Option (List Char × List Char)
  | _, [] => none
  | state, c :: rest =>
    match k.step state c with
    | none => none
    | some .close => some ([], rest)
    | some (.next state' added) =>
      (k.scan state' rest).map fun (value, rest') => (added.toList ++ value, rest')

end LiteralKind

/-- Scans a raw string literal after its opening quote, up to a quote and `hashes` marks. -/
def scanRaw (asciiOnly : Bool) (hashes : Nat) : List Char → Option (List Char × List Char)
  | [] => none
  | '"' :: rest =>
    if rest.take hashes = List.replicate hashes '#' then some ([], rest.drop hashes)
    else (scanRaw asciiOnly hashes rest).map fun (value, rest') => ('"' :: value, rest')
  | '\r' :: '\n' :: rest =>
    (scanRaw asciiOnly hashes rest).map fun (value, rest') => ('\r' :: '\n' :: value, rest')
  | '\r' :: _ => none
  | c :: rest =>
    if asciiOnly && c.toNat ≥ 128 then none
    else (scanRaw asciiOnly hashes rest).map fun (value, rest') => (c :: value, rest')

/-- The marks and the quote that open a raw literal: how many marks, and what follows. -/
def rawOpening : List Char → Option (Nat × List Char)
  | '"' :: rest => some (0, rest)
  | '#' :: rest => (rawOpening rest).map fun (n, rest') => (n + 1, rest')
  | _ => none

/-- Scans a string literal in either form: the text it stands for, and what follows it. -/
def scanString : List Char → Option (List Char × List Char)
  | '"' :: rest => LiteralKind.scan {} .plain rest
  | 'r' :: rest => do
    let (hashes, rest) ← rawOpening rest
    if hashes > 255 then none else scanRaw false hashes rest
  | _ => none

/-- The text that a string literal stands for; a suffix after the closing quote is ignored. -/
def stringValue? (literal : String) : Option String :=
  (scanString literal.toList).map fun (value, _) => String.ofList value

end CodecForge.Text
