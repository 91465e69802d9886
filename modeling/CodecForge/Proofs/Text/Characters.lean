import Mathlib.Data.List.Basic
import CodecForge.Source.Lexer

/-!
# Characters that start no identifier

Blanks, the byte-order mark and digits start no identifier.  `CharSet.rangesFrom` lists the ranges
of a set from its written form, so that the table of the characters that do can be searched.
-/

namespace CodecForge.Text

namespace CharSet

/-- The ranges that are written, behind the lower end and the number read so far. -/
def rangesFrom (low number : Option Nat) : List Char → List (Nat × Nat)
  | [] => (number.map fun high => (low.getD high, high)).toList
  | c :: cs =>
    if c == '-' then rangesFrom number none cs
    else match hexDigit? c with
      | some d => rangesFrom low (some (16 * number.getD 0 + d)) cs
      | none => match number with
        | none => rangesFrom low none cs
        | some high => (low.getD high, high) :: rangesFrom none none cs

theorem done_foldl (cs : List Char) (s : Scan) :
    (cs.foldl Scan.step s).close.done.toList = s.done.toList ++ rangesFrom s.low s.number cs := by
  induction cs generalizing s with
  | nil =>
    simp only [List.foldl_nil, rangesFrom, Scan.close]
    split <;> simp_all
  | cons c cs ih =>
    rw [List.foldl_cons, ih, Scan.step]
    simp only [rangesFrom]
    split
    · rfl
    · cases hexDigit? c with
      | some d => rfl
      | none =>
        simp only [Scan.close]
        split <;> simp_all

theorem contains_ofText (cs : List Char) (c : Char) :
    (ofText (String.ofList cs)).contains c =
      (rangesFrom none none cs).any fun r => r.1 ≤ c.toNat && c.toNat ≤ r.2 := by
  have hranges : (ofText (String.ofList cs)).ranges.toList = rangesFrom none none cs := by
    rw [ofText, done_foldl, String.toList_ofList]
    rfl
  rw [contains, ← Array.any_toList, hranges]

/-- A number in a range that all of the ranges are apart from is in none of them. -/
theorem not_any_of_apart {ranges gaps : List (Nat × Nat)}
    (hapart : ∀ r ∈ ranges, ∀ gap ∈ gaps, r.2 < gap.1 ∨ gap.2 < r.1) {gap : Nat × Nat}
    (hgap : gap ∈ gaps) {n : Nat} (hlow : gap.1 ≤ n) (hhigh : n ≤ gap.2) :
    (ranges.any fun r => r.1 ≤ n && n ≤ r.2) = false := by
  rw [List.any_eq_false]
  intro r hr hin
  simp only [Bool.and_eq_true, decide_eq_true_eq] at hin
  have := hapart r hr gap hgap
  omega

end CharSet

/-- Ranges that hold the blanks beyond ASCII and the byte-order mark. -/
def blankRanges : List (Nat × Nat) :=
  [(0x85, 0x85), (0xa0, 0xa0), (0x1680, 0x1680), (0x2000, 0x200f), (0x2028, 0x2029),
   (0x202f, 0x202f), (0x205f, 0x205f), (0x3000, 0x3000), (0xfeff, 0xfeff)]

theorem isIdentStart_of_mem_blankRanges {c : Char} {range : Nat × Nat}
    (hrange : range ∈ blankRanges) (hlow : range.1 ≤ c.toNat) (hhigh : c.toNat ≤ range.2) :
    isIdentStart c = false := by
  have hbeyond : ∀ range ∈ blankRanges, 128 ≤ range.1 := by decide
  have hascii : ¬ c.toNat < 128 := by
    have := hbeyond range hrange
    omega
  rw [isIdentStart, if_neg hascii, identStartTable, CharSet.contains_ofText]
  refine CharSet.not_any_of_apart ?_ hrange hlow hhigh
  decide +kernel

theorem isIdentStart_byteOrderMark : isIdentStart '\ufeff' = false :=
  @isIdentStart_of_mem_blankRanges _ (0xfeff, 0xfeff) (by decide) (by decide) (by decide)

/-- No blank starts an identifier. -/
theorem isIdentStart_of_isBlank {c : Char} (h : Source.Lexer.isBlank c = true) :
    isIdentStart c = false := by
  by_cases hspace : c = ' '
  · subst hspace
    decide
  simp only [Source.Lexer.isBlank, Bool.or_eq_true, beq_iff_eq, Bool.and_eq_true,
    decide_eq_true_eq, hspace, false_or] at h
  by_cases hascii : c.toNat < 128
  · have hcontrol : ∀ n ∈ [9, 10, 11, 12, 13], isIdentStart (Char.ofNat n) = false := by decide
    rw [← Char.ofNat_toNat c]
    refine hcontrol c.toNat ?_
    simp only [List.mem_cons, List.not_mem_nil, or_false]
    omega
  · have hrange : ∃ range ∈ blankRanges, range.1 ≤ c.toNat ∧ c.toNat ≤ range.2 := by
      simp only [blankRanges, List.exists_mem_cons_iff, List.not_mem_nil, false_and, exists_false,
        or_false]
      omega
    obtain ⟨range, hrange, hlow, hhigh⟩ := hrange
    exact isIdentStart_of_mem_blankRanges hrange hlow hhigh

theorem ne_of_isIdentStart {c x : Char} (hc : isIdentStart c = true)
    (hx : isIdentStart x = false) : c ≠ x := by
  rintro rfl
  rw [hc] at hx
  cases hx

theorem not_isDigit_of_isIdentStart {c : Char} (hc : isIdentStart c = true) :
    c.isDigit = false := by
  have hdigits : ∀ n ∈ List.range' 48 10, isIdentStart (Char.ofNat n) = false := by decide
  rw [← Bool.not_eq_true]
  intro hdigit
  simp only [Char.isDigit, Bool.and_eq_true, decide_eq_true_eq, ge_iff_le,
    UInt32.le_iff_toNat_le] at hdigit
  have hnone := hdigits c.toNat (List.mem_range'_1.2 ⟨hdigit.1, Nat.lt_succ_of_le hdigit.2⟩)
  rw [Char.ofNat_toNat, hc] at hnone
  cases hnone

/-- A letter is no decimal digit. -/
theorem ten_le_of_hexDigit? {c : Char} (hc : isIdentStart c = true) {d : Nat}
    (hd : hexDigit? c = some d) : 10 ≤ d := by
  have hdigit := not_isDigit_of_isIdentStart hc
  unfold hexDigit? at hd
  split at hd
  · next h =>
    have hno : c.isDigit = true := by simpa [Char.isDigit, Char.le_def] using h
    rw [hno] at hdigit
    cases hdigit
  · split at hd
    · next h =>
      have : 97 ≤ c.toNat := h.1
      cases hd
      omega
    · split at hd
      · next h =>
        have : 65 ≤ c.toNat := h.1
        cases hd
        omega
      · cases hd

end CodecForge.Text
