import CodecForge.Source.Token
import CodecForge.Text.IdentifierChar
import CodecForge.Text.Quoted

/-!
# From text to tokens

`tokenize` reads source text into a token sequence, or refuses it: on a bracket without its
partner, a literal without its end, or a character that starts no token.  Blanks and comments part
tokens and are dropped; a documentation comment becomes the attribute that it abbreviates.
-/

namespace CodecForge.Source

open CodecForge.Text

namespace Lexer

/-- A blank between tokens. -/
def isBlank (c : Char) : Bool :=
  c == ' ' || (9 ≤ c.toNat && c.toNat ≤ 13) || c.toNat == 0x85 || c.toNat == 0xa0 ||
    c.toNat == 0x1680 || (0x2000 ≤ c.toNat && c.toNat ≤ 0x200a) || c.toNat == 0x200e ||
    c.toNat == 0x200f || c.toNat == 0x2028 || c.toNat == 0x2029 || c.toNat == 0x202f ||
    c.toNat == 0x205f || c.toNat == 0x3000

/-- What `s` begins with, given that `rest` is the end of `s` that remains. -/
def before (s rest : List Char) : String := String.ofList (s.take (s.length - rest.length))

/-- `rest` when `s` begins with the text `start`. -/
def after? (start : String) (s : List Char) : Option (List Char) :=
  if start.toList.isPrefixOf s then some (s.drop start.length) else none

/-- The text starts with `start`. -/
def startsWith (s : List Char) (start : String) : Bool := start.toList.isPrefixOf s

/-! ### Comments -/

/-- What follows a line. -/
def afterLine : List Char → List Char
  | [] => []
  | '\n' :: rest => '\n' :: rest
  | '\r' :: '\n' :: rest => '\r' :: '\n' :: rest
  | _ :: rest => afterLine rest

/-- What follows a block comment that is open `depth` times; block comments nest. -/
def afterBlock (depth : Nat) : List Char → Option (List Char)
  | [] => none
  | '/' :: '*' :: rest => afterBlock (depth + 1) rest
  | '*' :: '/' :: rest => if depth ≤ 1 then some rest else afterBlock (depth - 1) rest
  | _ :: rest => afterBlock depth rest

/-- What follows an ordinary comment at the start of the text. -/
def afterComment? (s : List Char) : Option (List Char) :=
  if startsWith s "//" && (!startsWith s "///" || startsWith s "////") && !startsWith s "//!" then
    some (afterLine s)
  else if startsWith s "/**/" then some (s.drop 4)
  else if startsWith s "/*" && (!startsWith s "/**" || startsWith s "/***")
      && !startsWith s "/*!" then
    afterBlock 0 s
  else none

/-- No carriage return stands without a line feed after it. -/
def noBareCarriage : List Char → Bool
  | [] => true
  | '\r' :: '\n' :: rest => noBareCarriage rest
  | '\r' :: _ => false
  | _ :: rest => noBareCarriage rest

/-- The attribute that a documentation comment abbreviates. -/
def docAttribute (inner : Bool) (comment : List Char) : Tokens :=
  [.mark '#' false] ++ (if inner then [.mark '!' false] else []) ++
    [Token.brackets [.ident "doc", .mark '=' false, .literal (quote (String.ofList comment))]]

/-- The text between the first `skip` characters of `s` and its `rest`, less `drop` at its end. -/
def between (skip drop : Nat) (s rest : List Char) : List Char :=
  (s.take (s.length - rest.length - drop)).drop skip

/-- A documentation comment at the start of the text: its attribute, and what follows. -/
def docComment? (s : List Char) : Option (Tokens × List Char) := do
  let (inner, comment, rest) ←
    if startsWith s "//!" then
      some (true, between 3 0 s (afterLine s), afterLine s)
    else if startsWith s "/*!" then
      (afterBlock 0 s).map fun rest => (true, between 3 2 s rest, rest)
    else if startsWith s "///" && !startsWith s "////" then
      some (false, between 3 0 s (afterLine s), afterLine s)
    else if startsWith s "/**" && !startsWith s "/***" then
      (afterBlock 0 s).map fun rest => (false, between 3 2 s rest, rest)
    else none
  if noBareCarriage comment then some (docAttribute inner comment, rest) else none

/-! ### Identifiers -/

/-- What follows a plain identifier. -/
def afterPlainIdent? : List Char → Option (List Char)
  | c :: rest => if isIdentStart c then some (rest.dropWhile isIdentContinue) else none
  | [] => none

/-- The names that have no raw form. -/
def neverRaw : List String := ["_", "super", "self", "Self", "crate"]

/-- What follows an identifier, plain or raw. -/
def afterIdent? (s : List Char) : Option (List Char) :=
  match after? "r#" s with
  | none => afterPlainIdent? s
  | some body =>
    (afterPlainIdent? body).filter fun rest => !neverRaw.contains (before body rest)

/-- Openings of string literals, which no identifier shares. -/
def literalOpenings : List String :=
  ["r\"", "r#\"", "r##", "b\"", "b\x27", "br\"", "br#", "c\"", "cr\"", "cr#"]

/-! ### Literals -/

/-- What follows the suffix of a literal, if it has one. -/
def afterSuffix (s : List Char) : List Char := (afterPlainIdent? s).getD s

/-- What follows a string literal, of text, bytes or zero-terminated text. -/
def afterString? (s : List Char) : Option (List Char) :=
  let plain (k : LiteralKind) (body : List Char) := (k.scan .plain body).map Prod.snd
  let raw (ascii : Bool) (body : List Char) := do
    let (hashes, inside) ← rawOpening body
    if hashes > 255 then none else (scanRaw ascii hashes inside).map Prod.snd
  let rest? := match s with
    | '"' :: body => plain {} body
    | 'r' :: body => raw false body
    | 'b' :: '"' :: body => plain { bytes := true } body
    | 'b' :: 'r' :: body => raw true body
    | 'c' :: '"' :: body => plain { nonzero := true } body
    | 'c' :: 'r' :: body => raw false body
    | _ => none
  rest?.map afterSuffix

/-- What follows the digits and the brace of a `\u` escape. -/
def afterBraced (count value : Nat) : List Char → Option (List Char)
  | [] => none
  | c :: rest =>
    if c = '_' && count > 0 then afterBraced count value rest
    else if c = '\x7d' && count > 0 then if value.isValidChar then some rest else none
    else match hexDigit? c with
      | none => none
      | some d => if count = 6 then none else afterBraced (count + 1) (16 * value + d) rest

/-- What follows the one character of a character literal, escaped or not. -/
def afterOneChar? (bytes : Bool) : List Char → Option (List Char)
  | [] => none
  | '\\' :: 'x' :: a :: b :: rest => do
    let high ← hexDigit? a
    let _ ← hexDigit? b
    if bytes || high < 8 then some rest else none
  | '\\' :: 'u' :: '\x7b' :: rest => if bytes then none else afterBraced 0 0 rest
  | '\\' :: c :: rest => if "nrt\\0\x27\"".toList.contains c then some rest else none
  | ['\\'] => none
  | c :: rest => if bytes && c.toNat ≥ 128 then none else some rest

/-- What follows a character or byte literal. -/
def afterChar? (s : List Char) : Option (List Char) := do
  let rest ← match s with
    | 'b' :: '\x27' :: body => afterOneChar? true body
    | '\x27' :: body => afterOneChar? false body
    | _ => none
  match rest with
  | '\x27' :: rest => some (afterSuffix rest)
  | _ => none

/-- No character that could go on with a word follows. -/
def atWordEnd (s : List Char) : Bool := !s.head?.any isIdentContinue

/-- The end of a number: its suffix, with no word character after it. -/
def afterNumber? (s : List Char) : Option (List Char) :=
  let rest := afterSuffix s
  if atWordEnd rest then some rest else none

/-- The digits of a floating-point number up to its exponent: whether a point was met, whether an
exponent follows, and what follows the point or the letter of the exponent. -/
def afterMantissa? (point : Bool) : List Char → Option (Bool × Bool × List Char)
  | [] => some (point, false, [])
  | c :: rest =>
    if c.isDigit || c = '_' then afterMantissa? point rest
    else if c = '.' then
      if point then some (point, false, c :: rest)
      else if rest.head?.any fun d => d = '.' || isIdentStart d then none
      else afterMantissa? true rest
    else if c = 'e' || c = 'E' then some (point, true, rest)
    else some (point, false, c :: rest)

/-- The digits of an exponent, or nothing when there is none after all. -/
def afterExponent? (sign digit : Bool) : List Char → Option (List Char)
  | [] => if digit then some [] else none
  | c :: rest =>
    if c = '+' || c = '-' then
      if digit then some (c :: rest) else if sign then none else afterExponent? true digit rest
    else if c.isDigit then afterExponent? sign true rest
    else if c = '_' then afterExponent? sign digit rest
    else if digit then some (c :: rest) else none

/-- What follows a floating-point number. -/
def afterFloat? (s : List Char) : Option (List Char) := do
  if !s.head?.any Char.isDigit then none
  else
    let (point, exponent, rest) ← afterMantissa? false s
    if !point && !exponent then none
    else if !exponent then afterNumber? rest
    else match afterExponent? false false rest with
      | some rest' => afterNumber? rest'
      | none => if point then afterNumber? (s.drop (s.length - rest.length - 1)) else none

/-- What follows the digits of an integer in the given base; a digit beyond the base refuses the
number, a letter beyond it ends the digits. -/
def afterDigits? (base : Nat) (empty : Bool) : List Char → Option (List Char)
  | [] => if empty then none else some []
  | c :: rest =>
    if c = '_' then if empty && base = 10 then none else afterDigits? base empty rest
    else match hexDigit? c with
      | some d =>
        if d < base then afterDigits? base false rest
        else if c.isDigit || empty then none else some (c :: rest)
      | none => if empty then none else some (c :: rest)

/-- What follows an integer. -/
def afterInteger? (s : List Char) : Option (List Char) := do
  let rest ← match s with
    | '0' :: 'x' :: body => afterDigits? 16 true body
    | '0' :: 'o' :: body => afterDigits? 8 true body
    | '0' :: 'b' :: body => afterDigits? 2 true body
    | _ => afterDigits? 10 true s
  afterNumber? rest

/-- What follows a literal of any kind. -/
def afterLiteral? (s : List Char) : Option (List Char) :=
  afterString? s <|> afterChar? s <|> afterFloat? s <|> afterInteger? s

/-! ### Marks -/

/-- The character starts a mark, unless a comment starts there. -/
def startsMark (s : List Char) : Bool :=
  !startsWith s "//" && !startsWith s "/*" &&
    s.head?.any fun c => "~!@#$%^&*-=+|;:,<.>/?\x27".toList.contains c

/-- A lifetime: a quote before an identifier that no quote follows. -/
def lifetime? (s : List Char) : Option (Token × List Char) := do
  let body ← after? "\x27" s
  let rest ← afterIdent? body
  if startsWith rest "\x27" || (startsWith rest "#" && !startsWith body "r#") then none
  else some (.lifetime (before body rest), rest)

/-- One token that is no group: literals first, then marks, then identifiers. -/
def leaf? (s : List Char) : Option (Token × List Char) :=
  match afterLiteral? s with
  | some rest => some (.literal (before s rest), rest)
  | none =>
    if startsWith s "\x27" then lifetime? s
    else if startsMark s then
      match s with
      | c :: rest => some (.mark c (startsMark rest), rest)
      | [] => none
    else if literalOpenings.any (startsWith s) then none
    else (afterIdent? s).map fun rest => (.ident (before s rest), rest)

/-! ### The whole text -/

/-- The group that a character opens. -/
def opens? : Char → Option Delimiter
  | '(' => some .paren
  | '[' => some .bracket
  | '\x7b' => some .brace
  | _ => none

/-- The group that a character closes. -/
def closes? : Char → Option Delimiter
  | ')' => some .paren
  | ']' => some .bracket
  | '\x7d' => some .brace
  | _ => none

/-- Reads tokens: `stack` holds the open groups with the tokens before each, and `acc` the tokens
of the innermost one, both latest first.  Each step takes at least one character. -/
def run : Nat → List (Delimiter × Tokens) → Tokens → List Char → Option Tokens
  | 0, _, _, _ => none
  | fuel + 1, stack, acc, s =>
    match s with
    | [] => if stack.isEmpty then some acc.reverse else none
    | c :: rest =>
      if isBlank c then run fuel stack acc rest
      else match afterComment? s with
      | some rest => run fuel stack acc rest
      | none =>
      match docComment? s with
      | some (doc, rest) => run fuel stack (doc.reverse ++ acc) rest
      | none =>
      match opens? c, closes? c with
      | some d, _ => run fuel ((d, acc) :: stack) [] rest
      | none, some d =>
        match stack with
        | (d', outer) :: stack' =>
          if d = d' then run fuel stack' (.group d acc.reverse :: outer) rest else none
        | [] => none
      | none, none =>
        match leaf? s with
        | some (t, rest) => run fuel stack (t :: acc) rest
        | none => none

end Lexer

/-- The tokens of a text; a byte-order mark at its start is dropped. -/
def tokenize (text : String) : Option Tokens :=
  let s := match text.toList with
    | '\ufeff' :: rest => rest
    | s => s
  Lexer.run (s.length + 1) [] [] s

end CodecForge.Source
