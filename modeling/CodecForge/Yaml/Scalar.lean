import CodecForge.Schema.Document
import CodecForge.Text.CharSet

/-!
# Scalars

A scalar is a text at a leaf of a tree, written plainly or in quotes.  What is quoted is a text, and
what is plain may also stand for null, a truth value or a number: `Scalar.document?` tells which.
-/

namespace CodecForge.Yaml

open CodecForge.Schema

/-- A text at a leaf; a plain one is written without quotes. -/
structure Scalar where
  text : String
  isPlain : Bool
  deriving DecidableEq, Repr

namespace Scalar

/-- The scalar that is left out. -/
def empty : Scalar := ⟨"", true⟩

/-- The scalar stands for null. -/
def isNull (s : Scalar) : Bool := s.isPlain && ["", "~", "null", "Null", "NULL"].contains s.text

/-- The truth value that a plain scalar stands for. -/
def truth? (text : String) : Option Bool :=
  if ["true", "True", "TRUE"].contains text then some true
  else if ["false", "False", "FALSE"].contains text then some false
  else none

/-! ### Whole numbers -/

/-- The number that digits spell in a base. -/
def digits? (base : Nat) : List Char → Option Nat
  | [] => none
  | ds => ds.foldlM (fun n c =>
    (Text.hexDigit? c).bind fun d => if d < base then some (base * n + d) else none) 0

/-- A number without its sign, and whether the sign is a minus. -/
def unsigned : List Char → Bool × List Char
  | '+' :: rest => (false, rest)
  | '-' :: rest => (true, rest)
  | s => (false, s)

/-- Digits that begin with a zero too many; they are no number. -/
def isZeroFilled : List Char → Bool
  | '0' :: d :: rest => (d :: rest).all Char.isDigit
  | _ => false

/-- The size of a whole number without its sign: hexadecimal, octal, binary or decimal. -/
def magnitude? : List Char → Option Nat
  | '0' :: 'x' :: ds => digits? 16 ds
  | '0' :: 'o' :: ds => digits? 8 ds
  | '0' :: 'b' :: ds => digits? 2 ds
  | ds => if isZeroFilled ds then none else digits? 10 ds

/-- The whole number that a plain scalar stands for. -/
def integer? (s : List Char) : Option Int :=
  let (negative, body) := unsigned s
  (magnitude? body).map fun n => if negative then -(n : Int) else n

/-- The number can be written with so many bits, without a sign or with one. -/
def fits (bits : Nat) : Int → Bool
  | .ofNat n => n < 1 <<< bits
  | .negSucc n => n < 1 <<< (bits - 1)

/-! ### Numbers with a fraction or an exponent -/

/-- The value of digits, where there may be none. -/
def digitsOrNone? (ds : List Char) : Option Nat := if ds.isEmpty then some 0 else digits? 10 ds

/-- The power of ten that a mark and a number give, where there may be neither. -/
def power? : List Char → Option Int
  | [] => some 0
  | c :: rest =>
    if c = 'e' || c = 'E' then
      let (negative, ds) := unsigned rest
      (digits? 10 ds).map fun n => if negative then -(n : Int) else n
    else none

/-- The digits after the point, if a point comes first, and what follows them. -/
def afterPoint : List Char → List Char × List Char
  | '.' :: rest => rest.span Char.isDigit
  | s => ([], s)

/-- A number without its sign as a whole number and the power of ten it is multiplied by. -/
def decimal? (s : List Char) : Option (Nat × Int) :=
  let (whole, rest) := s.span Char.isDigit
  let (fraction, rest) := afterPoint rest
  if whole.isEmpty && fraction.isEmpty then none
  else do
    let n ← digitsOrNone? (whole ++ fraction)
    let e ← power? rest
    return (n, e - fraction.length)

/-- The least number that is too large for 64 bits of floating point. -/
def overflow : Nat := 1 <<< 1024 - 1 <<< 970

/-- The number `n · 10 ^ e` is one of 64 bits of floating point. -/
def isFinite (n : Nat) (e : Int) : Bool :=
  let places : Int := (Nat.toDigits 10 n).length + e
  if n = 0 || places < 309 then true
  else if places > 309 then false
  else if e < 0 then n < overflow * Nat.pow 10 (-e).toNat
  else n * Nat.pow 10 e.toNat < overflow

/-- The text is one of those for numbers that no digits spell. -/
def isNonFinite (text : String) : Bool :=
  [".inf", ".Inf", ".INF", "+.inf", "+.Inf", "+.INF", "-.inf", "-.Inf", "-.INF",
    ".nan", ".NaN", ".NAN"].contains text

/-- A plain scalar stands for a number with a fraction or an exponent. -/
def isDecimal (text : String) : Bool :=
  let body := (unsigned text.toList).2
  isNonFinite text || (!isZeroFilled body && (decimal? body).any fun (n, e) => isFinite n e)

/-! ### Documents -/

/-- What a plain scalar stands for.  A whole number has 64 bits; one that needs up to 128 is
refused, and a longer one is held to be inexact. -/
def ofPlain? (text : String) : Option Document :=
  let inexact := some (if isDecimal text then .decimal text else .text text)
  match truth? text, integer? text.toList with
  | some b, _ => some (.bool b)
  | none, some n =>
    if fits 64 n then some (.integer n)
    else if fits 128 n then none
    else inexact
  | none, none => inexact

/-- The document that a scalar is. -/
def document? (s : Scalar) : Option Document :=
  if s.isNull then some .null
  else if s.isPlain then ofPlain? s.text
  else some (.text s.text)

end Scalar

end CodecForge.Yaml
