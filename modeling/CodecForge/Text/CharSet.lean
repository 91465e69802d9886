/-!
# Sets of characters

A set of characters kept as a list of closed ranges of code points.  `CharSet.ofText` reads the
written form of a set: hexadecimal code points and ranges `a-b`, parted by blanks.
-/

namespace CodecForge.Text

/-- The value of a hexadecimal digit. -/
def hexDigit? (c : Char) : Option Nat :=
  if '0' ≤ c ∧ c ≤ '9' then some (c.toNat - 48)
  else if 'a' ≤ c ∧ c ≤ 'f' then some (c.toNat - 87)
  else if 'A' ≤ c ∧ c ≤ 'F' then some (c.toNat - 55)
  else none

/-- Closed ranges of code points, in no particular order. -/
structure CharSet where
  ranges : Array (Nat × Nat)

namespace CharSet

/-- Some range holds the character. -/
def contains (s : CharSet) (c : Char) : Bool :=
  s.ranges.any fun r => r.1 ≤ c.toNat && c.toNat ≤ r.2

/-- The reader's state: the ranges read so far, the lower end if `-` has been seen, and the
number being read. -/
structure Scan where
  done : Array (Nat × Nat) := #[]
  low : Option Nat := none
  number : Option Nat := none

/-- Closes the range being read, if there is one. -/
def Scan.close (s : Scan) : Scan :=
  match s.number with
  | none => s
  | some high => { done := s.done.push (s.low.getD high, high) }

/-- Reads one character of the written form. -/
def Scan.step (s : Scan) (c : Char) : Scan :=
  if c == '-' then { s with low := s.number, number := none }
  else match hexDigit? c with
    | some d => { s with number := some (16 * s.number.getD 0 + d) }
    | none => s.close

/-- Reads the written form of a set. -/
def ofText (text : String) : CharSet :=
  { ranges := (text.toList.foldl Scan.step {}).close.done }

end CharSet

end CodecForge.Text
