import CodecForge.Wire.FieldOffset

/-!
# Offsets that are accepted

An offset is accepted exactly if the field that begins there ends within the value and the offset
suits the field, with sums that have no bound.  In any value of the type the address of the field is
then a sum without overflow of two multiples of the field's alignment, and the field ends where the
value does or before.
-/

namespace CodecForge.Wire

/-! ### Layouts -/

namespace Layout

/-- The size is a number of 64 bits, and the alignment a power of two. -/
structure WellFormed (l : Layout) : Prop where
  size_lt : l.size < UInt64.size
  align_eq : l.align.isPowerOfTwo

/-- A value of the layout can lie at the address. -/
structure LiesAt (l : Layout) (base : Nat) : Prop where
  aligned : l.align ∣ base
  stop_lt : base + l.size < UInt64.size

variable {outer inner : Layout}

theorem WellFormed.align_dvd_align (hinner : inner.WellFormed) (houter : outer.WellFormed)
    (h : inner.align ≤ outer.align) : inner.align ∣ outer.align := by
  obtain ⟨i, hi⟩ := hinner.align_eq
  obtain ⟨j, hj⟩ := houter.align_eq
  rw [hi, hj] at h ⊢
  exact Nat.pow_dvd_pow 2 ((Nat.pow_le_pow_iff_right (by decide)).1 h)

end Layout

namespace FieldOffset

variable {outer inner : Layout} {offset : Nat}

/-! ### Which offsets are accepted -/

/-- An end that is no number of 64 bits is beyond the end of any value. -/
theorem inBounds_iff (houter : outer.size < UInt64.size) :
    inBounds outer inner offset = true ↔ offset + inner.size ≤ outer.size := by
  rw [inBounds, Bool.and_eq_true, decide_eq_true_eq, decide_eq_true_eq]
  exact ⟨And.right, fun hle => ⟨Nat.lt_of_le_of_lt hle houter, hle⟩⟩

/-- What becomes of an offset, told without overflow and remainders. -/
theorem of_eq (houter : outer.size < UInt64.size) :
    of outer inner offset =
      if offset + inner.size ≤ outer.size then
        if inner.align ∣ offset then .ok ⟨offset⟩ else .error .misaligned
      else .error .outOfBounds := by
  by_cases hbounds : offset + inner.size ≤ outer.size
  · rw [of, (inBounds_iff houter).2 hbounds, if_pos hbounds]
    by_cases halign : inner.align ∣ offset
    · rw [if_pos halign]
      exact if_neg (not_not_intro (Nat.mod_eq_zero_of_dvd halign))
    · rw [if_neg halign]
      exact if_pos (mt Nat.dvd_of_mod_eq_zero halign)
  · have hout : inBounds outer inner offset = false :=
      Bool.eq_false_iff.2 (mt (inBounds_iff houter).1 hbounds)
    rw [of, hout, if_neg hbounds]
    rfl

theorem of_eq_outOfBounds_iff (houter : outer.size < UInt64.size) :
    of outer inner offset = .error .outOfBounds ↔ outer.size < offset + inner.size := by
  rw [of_eq houter]
  grind

theorem of_eq_misaligned_iff (houter : outer.size < UInt64.size) :
    of outer inner offset = .error .misaligned ↔
      offset + inner.size ≤ outer.size ∧ ¬ inner.align ∣ offset := by
  rw [of_eq houter]
  grind

theorem of_eq_ok_iff (houter : outer.size < UInt64.size) {f : FieldOffset} :
    of outer inner offset = .ok f ↔
      ⟨offset⟩ = f ∧ offset + inner.size ≤ outer.size ∧ inner.align ∣ offset := by
  rw [of_eq houter]
  grind

/-! ### Where the field is read -/

section Address

variable {base : Nat} (hbounds : offset + inner.size ≤ outer.size) (hbase : outer.LiesAt base)
include hbounds hbase

theorem address_eq : address ⟨offset⟩ base = base + offset := by
  have hstop := hbase.stop_lt
  show (base + offset) % UInt64.size = base + offset
  exact Nat.mod_eq_of_lt (by omega)

/-- A value of the field's type can lie at the address of the field. -/
theorem liesAt_address (hdvd : inner.align ∣ outer.align) (halign : inner.align ∣ offset) :
    inner.LiesAt (address ⟨offset⟩ base) := by
  have hstop := hbase.stop_lt
  rw [address_eq hbounds hbase]
  constructor
  · exact Nat.dvd_add (Nat.dvd_trans hdvd hbase.aligned) halign
  · omega

end Address

/-- An offset is accepted exactly if the field ends within the value, which is tested first, and the
offset is a multiple of the field's alignment.  In any value of the type the address of the field is
then the sum, without overflow, and a multiple of the field's alignment, and the field lies within
the value. -/
theorem offsets_readable (houter : outer.WellFormed) (hinner : inner.WellFormed)
    (halign : inner.align ≤ outer.align) (offset : Nat) :
    ((∃ f, of outer inner offset = .ok f) ↔
      offset + inner.size ≤ outer.size ∧ inner.align ∣ offset) ∧
    (of outer inner offset = .error .outOfBounds ↔ outer.size < offset + inner.size) ∧
    (of outer inner offset = .error .misaligned ↔
      offset + inner.size ≤ outer.size ∧ ¬ inner.align ∣ offset) ∧
    ∀ f, of outer inner offset = .ok f → f.offset = offset ∧ ∀ base, outer.LiesAt base →
      f.address base = base + offset ∧ inner.LiesAt (f.address base) ∧
      base ≤ f.address base ∧ f.address base + inner.size ≤ base + outer.size := by
  have hsize := houter.size_lt
  refine ⟨?_, of_eq_outOfBounds_iff hsize, of_eq_misaligned_iff hsize, fun f hf => ?_⟩
  · simp only [of_eq_ok_iff hsize, exists_eq_left']
  · obtain ⟨rfl, hbounds, hoffset⟩ := (of_eq_ok_iff hsize).1 hf
    refine ⟨rfl, fun base hbase => ?_⟩
    have haddress := address_eq hbounds hbase
    have hlies := liesAt_address hbounds hbase (hinner.align_dvd_align houter halign) hoffset
    exact ⟨haddress, hlies, by omega, by omega⟩

/-- The last four bytes of the last value of twenty-four whose end is an address. -/
theorem offsets_readable_last :
    of ⟨24, 8⟩ ⟨4, 4⟩ 20 = .ok ⟨20⟩ ∧ Layout.LiesAt ⟨24, 8⟩ (UInt64.size - 32) ∧
    address ⟨20⟩ (UInt64.size - 32) = UInt64.size - 12 ∧
    Layout.LiesAt ⟨4, 4⟩ (UInt64.size - 12) := by
  have houter : Layout.WellFormed ⟨24, 8⟩ := ⟨by decide, 3, rfl⟩
  have hinner : Layout.WellFormed ⟨4, 4⟩ := ⟨by decide, 2, rfl⟩
  have hbase : Layout.LiesAt ⟨24, 8⟩ (UInt64.size - 32) := ⟨by decide, by decide⟩
  obtain ⟨haccepted, -, -, hread⟩ := offsets_readable houter hinner (by decide) 20
  obtain ⟨f, hf⟩ := haccepted.2 ⟨by decide, by decide⟩
  obtain ⟨hoffset, hreadable⟩ := hread f hf
  obtain ⟨haddress, hlies, -⟩ := hreadable _ hbase
  obtain rfl : f = ⟨20⟩ := by
    cases f
    exact congrArg mk hoffset
  rw [haddress] at hlies
  exact ⟨hf, hbase, haddress, hlies⟩

/-- A field without bytes may begin at the end, and an end that overflows is out of bounds. -/
example : of ⟨24, 8⟩ ⟨0, 8⟩ 24 = .ok ⟨24⟩ ∧
    of ⟨24, 8⟩ ⟨8, 8⟩ (UInt64.size - 8) = .error .outOfBounds := ⟨rfl, rfl⟩

end FieldOffset

end CodecForge.Wire
