import Mathlib.Tactic.NormNum
import Mathlib.Tactic.SplitIfs
import CodecForge.Proofs.Lists
import CodecForge.Wire.Utf8

/-!
# Texts and their bytes

Every character is read back from its own bytes, whatever follows them, and so is every text.  No
other bytes are read as it: what a character or a text is read of are its own bytes.
-/

namespace CodecForge.Wire

/-- A byte that goes on with a sequence adds its six bits. -/
theorem readTail_cons {seen code n x : Nat} {low high : UInt8} (hx : x < 64)
    (hlow : low.toNat ≤ x + 0x80) (hhigh : x + 0x80 ≤ high.toNat) (rest : Bytes) :
    readTail seen code (n + 1) low high (UInt8.ofNat (x + 0x80) :: rest) =
      readTail (seen + 1) (64 * code + x) n 0x80 0xbf rest := by
  have hbyte : (UInt8.ofNat (x + 0x80)).toNat = x + 0x80 :=
    UInt8.toNat_ofNat_of_lt (by simp only [UInt8.size]; omega)
  have hrange : low ≤ UInt8.ofNat (x + 0x80) ∧ UInt8.ofNat (x + 0x80) ≤ high := by
    simp only [UInt8.le_iff_toNat_le, hbyte]
    exact ⟨hlow, hhigh⟩
  rw [readTail, if_pos hrange, hbyte, Nat.add_sub_cancel]

theorem readTail_cons_full {seen code n x : Nat} (hx : x < 64) (rest : Bytes) :
    readTail seen code (n + 1) 0x80 0xbf (UInt8.ofNat (x + 0x80) :: rest) =
      readTail (seen + 1) (64 * code + x) n 0x80 0xbf rest :=
  readTail_cons hx (by simp) (by simp; omega) rest

/-! ### One character -/

theorem readChar_one {v : Nat} (h : v < 0x80) (rest : Bytes) :
    readChar (UInt8.ofNat v) rest = .ok (Char.ofNat v, rest) := by
  have hbyte : (UInt8.ofNat v).toNat = v :=
    UInt8.toNat_ofNat_of_lt (by simp only [UInt8.size]; omega)
  simp only [readChar, leadByte, hbyte, if_pos h]
  rfl

theorem readChar_two {v : Nat} (h : 0x80 ≤ v) (h' : v < 0x800) (rest : Bytes) :
    readChar (UInt8.ofNat (v / 64 % 32 + 0xc0)) (UInt8.ofNat (v % 64 + 0x80) :: rest) =
      .ok (Char.ofNat v, rest) := by
  have hbyte : (UInt8.ofNat (v / 64 % 32 + 0xc0)).toNat = v / 64 + 0xc0 := by
    rw [UInt8.toNat_ofNat']
    omega
  have hlead : leadByte (UInt8.ofNat (v / 64 % 32 + 0xc0)) = some (1, 0x80, 0xbf, v / 64) := by
    simp only [leadByte, hbyte]
    rw [if_neg (by omega), if_neg (by omega), if_pos (by omega), Nat.add_sub_cancel]
  have hcode : 64 * (v / 64) + v % 64 = v := by omega
  simp only [readChar, hlead, readTail_cons_full (Nat.mod_lt v (by decide)), hcode]
  rfl

/-- The first byte of a sequence of three bytes. -/
theorem leadByte_three {v : Nat} (h : 0x800 ≤ v) (h' : v < 0x10000)
    (hv : v < 0xd800 ∨ 0xe000 ≤ v) :
    ∃ low high : UInt8, low.toNat ≤ v / 64 % 64 + 0x80 ∧ v / 64 % 64 + 0x80 ≤ high.toNat ∧
      leadByte (UInt8.ofNat (v / 4096 % 16 + 0xe0)) = some (2, low, high, v / 4096) := by
  have hbyte : (UInt8.ofNat (v / 4096 % 16 + 0xe0)).toNat = v / 4096 + 0xe0 := by
    rw [UInt8.toNat_ofNat']
    omega
  simp only [leadByte, hbyte]
  rw [if_neg (by omega), if_neg (by omega), if_neg (by omega)]
  by_cases h0 : v / 4096 = 0
  · exact ⟨0xa0, 0xbf, by simp; omega, by simp; omega, by simp [h0]⟩
  · rw [if_neg (by omega)]
    by_cases hd : v / 4096 = 0xd
    · exact ⟨0x80, 0x9f, by simp, by simp; omega, by simp [hd]⟩
    · rw [if_neg (by omega), if_pos (by omega), Nat.add_sub_cancel]
      exact ⟨0x80, 0xbf, by simp, by simp; omega, rfl⟩

theorem readChar_three {v : Nat} (h : 0x800 ≤ v) (h' : v < 0x10000)
    (hv : v < 0xd800 ∨ 0xe000 ≤ v) (rest : Bytes) :
    readChar (UInt8.ofNat (v / 4096 % 16 + 0xe0))
        (UInt8.ofNat (v / 64 % 64 + 0x80) :: UInt8.ofNat (v % 64 + 0x80) :: rest) =
      .ok (Char.ofNat v, rest) := by
  obtain ⟨low, high, hlow, hhigh, hlead⟩ := leadByte_three h h' hv
  have hcode : 64 * (64 * (v / 4096) + v / 64 % 64) + v % 64 = v := by omega
  simp only [readChar, hlead, readTail_cons (Nat.mod_lt _ (by decide)) hlow hhigh,
    readTail_cons_full (Nat.mod_lt v (by decide)), hcode]
  rfl

/-- The first byte of a sequence of four bytes. -/
theorem leadByte_four {v : Nat} (h : 0x10000 ≤ v) (h' : v < 0x110000) :
    ∃ low high : UInt8, low.toNat ≤ v / 4096 % 64 + 0x80 ∧ v / 4096 % 64 + 0x80 ≤ high.toNat ∧
      leadByte (UInt8.ofNat (v / 262144 % 8 + 0xf0)) = some (3, low, high, v / 262144) := by
  have hbyte : (UInt8.ofNat (v / 262144 % 8 + 0xf0)).toNat = v / 262144 + 0xf0 := by
    rw [UInt8.toNat_ofNat']
    omega
  simp only [leadByte, hbyte]
  rw [if_neg (by omega), if_neg (by omega), if_neg (by omega), if_neg (by omega),
    if_neg (by omega), if_neg (by omega)]
  by_cases h0 : v / 262144 = 0
  · exact ⟨0x90, 0xbf, by simp; omega, by simp; omega, by simp [h0]⟩
  · rw [if_neg (by omega)]
    by_cases h4 : v / 262144 = 4
    · exact ⟨0x80, 0x8f, by simp, by simp; omega, by simp [h4]⟩
    · rw [if_pos (by omega), Nat.add_sub_cancel]
      exact ⟨0x80, 0xbf, by simp, by simp; omega, rfl⟩

theorem readChar_four {v : Nat} (h : 0x10000 ≤ v) (h' : v < 0x110000) (rest : Bytes) :
    readChar (UInt8.ofNat (v / 262144 % 8 + 0xf0))
        (UInt8.ofNat (v / 4096 % 64 + 0x80) :: UInt8.ofNat (v / 64 % 64 + 0x80) ::
          UInt8.ofNat (v % 64 + 0x80) :: rest) =
      .ok (Char.ofNat v, rest) := by
  obtain ⟨low, high, hlow, hhigh, hlead⟩ := leadByte_four h h'
  have hcode : 64 * (64 * (64 * (v / 262144) + v / 4096 % 64) + v / 64 % 64) + v % 64 = v := by
    omega
  simp only [readChar, hlead, readTail_cons (Nat.mod_lt _ (by decide)) hlow hhigh,
    readTail_cons_full (Nat.mod_lt _ (by decide)), hcode]
  rfl

/-- A character is read back from its bytes. -/
theorem readChar_utf8EncodeChar (c : Char) :
    ∃ b tail, String.utf8EncodeChar c = b :: tail ∧
      ∀ rest, readChar b (tail ++ rest) = .ok (c, rest) := by
  have hvalid : c.val.toNat < 0xd800 ∨ 0xe000 ≤ c.val.toNat ∧ c.val.toNat < 0x110000 := by
    have := c.valid
    simp only [UInt32.isValidChar, Nat.isValidChar] at this
    omega
  have hchar : Char.ofNat c.val.toNat = c := Char.ofNat_toNat c
  simp only [String.utf8EncodeChar]
  split_ifs with h1 h2 h3
  · refine ⟨_, _, rfl, fun rest => ?_⟩
    rw [List.nil_append, readChar_one (by omega), hchar]
  · refine ⟨_, _, rfl, fun rest => ?_⟩
    rw [List.cons_append, List.nil_append, readChar_two (by omega) (by omega), hchar]
  · refine ⟨_, _, rfl, fun rest => ?_⟩
    simp only [List.cons_append, List.nil_append]
    rw [readChar_three (by omega) (by omega) (by omega), hchar]
  · refine ⟨_, _, rfl, fun rest => ?_⟩
    simp only [List.cons_append, List.nil_append]
    rw [readChar_four (by omega) (by omega), hchar]

/-! ### Texts -/

theorem decodeFor_flatMap (cs : List Char) (index fuel : Nat) (h : cs.length ≤ fuel) :
    decodeFor index fuel (cs.flatMap String.utf8EncodeChar) = .ok cs := by
  induction cs generalizing index fuel with
  | nil => simp [decodeFor]
  | cons c cs ih =>
    obtain ⟨b, tail, hbytes, hread⟩ := readChar_utf8EncodeChar c
    obtain ⟨fuel, rfl⟩ : ∃ n, fuel = n + 1 := ⟨fuel - 1, by simp at h; omega⟩
    rw [List.flatMap_cons, hbytes, List.cons_append, decodeFor]
    simp only [hread]
    rw [ih _ _ (by simpa using h)]
    rfl

theorem length_le_length_flatMap (cs : List Char) :
    cs.length ≤ (cs.flatMap String.utf8EncodeChar).length := by
  induction cs with
  | nil => simp
  | cons c cs ih =>
    obtain ⟨b, tail, hbytes, -⟩ := readChar_utf8EncodeChar c
    rw [List.flatMap_cons, hbytes, List.cons_append, List.length_cons, List.length_cons,
      List.length_append]
    omega

theorem decodeUtf8_encodeUtf8 (s : String) : decodeUtf8 (encodeUtf8 s) = .ok s := by
  unfold decodeUtf8 encodeUtf8
  rw [decodeFor_flatMap _ _ _ (length_le_length_flatMap _)]
  simp [Except.map]

/-! ### Bytes of what is read -/

theorem val_ofNat {v : Nat} (h : v < 0xd800 ∨ 0xe000 ≤ v ∧ v < 0x110000) :
    (Char.ofNat v).val.toNat = v := by
  have hvalid : v.isValidChar := by
    simp only [Nat.isValidChar]
    omega
  rw [Char.ofNat, dif_pos hvalid]
  rfl

theorem utf8EncodeChar_one {b : UInt8} (hb : b.toNat < 0x80) :
    String.utf8EncodeChar (Char.ofNat b.toNat) = [b] := by
  have hval : (Char.ofNat b.toNat).val.toNat = b.toNat := val_ofNat (by omega)
  simp only [String.utf8EncodeChar, hval]
  rw [if_pos (by omega), UInt8.ofNat_toNat]

theorem utf8EncodeChar_two {b x : UInt8} {bits code : Nat} (hb : b.toNat = bits + 0xc0)
    (hbits : 2 ≤ bits ∧ bits < 32) (hx : 0x80 ≤ x.toNat ∧ x.toNat ≤ 0xbf)
    (hcode : code = 64 * bits + (x.toNat - 0x80)) :
    String.utf8EncodeChar (Char.ofNat code) = [b, x] := by
  have h₁ : code / 64 % 32 + 0xc0 = b.toNat := by omega
  have h₂ : code % 64 + 0x80 = x.toNat := by omega
  have hval : (Char.ofNat code).val.toNat = code := val_ofNat (by omega)
  simp only [String.utf8EncodeChar, hval]
  rw [if_neg (by omega), if_pos (by omega), h₁, h₂]
  simp only [UInt8.ofNat_toNat]

theorem utf8EncodeChar_three {b x y : UInt8} {bits code : Nat} (hb : b.toNat = bits + 0xe0)
    (hbits : bits < 16) (hx : 0x80 ≤ x.toNat ∧ x.toNat ≤ 0xbf)
    (hy : 0x80 ≤ y.toNat ∧ y.toNat ≤ 0xbf)
    (hcode : code = 64 * (64 * bits + (x.toNat - 0x80)) + (y.toNat - 0x80)) (hlow : 0x800 ≤ code)
    (hvalid : code < 0xd800 ∨ 0xe000 ≤ code) :
    String.utf8EncodeChar (Char.ofNat code) = [b, x, y] := by
  have h₁ : code / 4096 % 16 + 0xe0 = b.toNat := by omega
  have h₂ : code / 64 % 64 + 0x80 = x.toNat := by omega
  have h₃ : code % 64 + 0x80 = y.toNat := by omega
  have hval : (Char.ofNat code).val.toNat = code := val_ofNat (by omega)
  simp only [String.utf8EncodeChar, hval]
  rw [if_neg (by omega), if_neg (by omega), if_pos (by omega), h₁, h₂, h₃]
  simp only [UInt8.ofNat_toNat]

theorem utf8EncodeChar_four {b x y z : UInt8} {bits code : Nat} (hb : b.toNat = bits + 0xf0)
    (hbits : bits < 5) (hx : 0x80 ≤ x.toNat ∧ x.toNat ≤ 0xbf)
    (hy : 0x80 ≤ y.toNat ∧ y.toNat ≤ 0xbf) (hz : 0x80 ≤ z.toNat ∧ z.toNat ≤ 0xbf)
    (hcode : code =
      64 * (64 * (64 * bits + (x.toNat - 0x80)) + (y.toNat - 0x80)) + (z.toNat - 0x80))
    (hvalid : 0x10000 ≤ code ∧ code < 0x110000) :
    String.utf8EncodeChar (Char.ofNat code) = [b, x, y, z] := by
  have h₁ : code / 262144 % 8 + 0xf0 = b.toNat := by omega
  have h₂ : code / 4096 % 64 + 0x80 = x.toNat := by omega
  have h₃ : code / 64 % 64 + 0x80 = y.toNat := by omega
  have h₄ : code % 64 + 0x80 = z.toNat := by omega
  have hval : (Char.ofNat code).val.toNat = code := val_ofNat (by omega)
  simp only [String.utf8EncodeChar, hval]
  rw [if_neg (by omega), if_neg (by omega), if_neg (by omega), h₁, h₂, h₃, h₄]
  simp only [UInt8.ofNat_toNat]

/-- The first bytes of sequences: their bits, and the range of the next byte, which leaves out
longer sequences than needed, halves of pairs and what is no character. -/
inductive LeadByte (b : UInt8) : Nat → UInt8 → UInt8 → Nat → Prop where
  | one {low high : UInt8} : b.toNat < 0x80 → LeadByte b 0 low high b.toNat
  | two {bits : Nat} : b.toNat = bits + 0xc0 → 2 ≤ bits ∧ bits < 32 → LeadByte b 1 0x80 0xbf bits
  | three {low high : UInt8} {bits : Nat} : b.toNat = bits + 0xe0 → bits < 16 →
      0x80 ≤ low.toNat ∧ high.toNat ≤ 0xbf → (bits = 0 → 0xa0 ≤ low.toNat) →
      (bits = 0xd → high.toNat ≤ 0x9f) → LeadByte b 2 low high bits
  | four {low high : UInt8} {bits : Nat} : b.toNat = bits + 0xf0 → bits < 5 →
      0x80 ≤ low.toNat ∧ high.toNat ≤ 0xbf → (bits = 0 → 0x90 ≤ low.toNat) →
      (bits = 4 → high.toNat ≤ 0x8f) → LeadByte b 3 low high bits

theorem leadByte_of_eq_some {b : UInt8} {n bits : Nat} {low high : UInt8}
    (h : leadByte b = some (n, low, high, bits)) : LeadByte b n low high bits := by
  simp only [leadByte] at h
  split_ifs at h <;> cases h
  · next hb => exact .one hb
  · exact .two (by omega) (by omega)
  · exact .three (by omega) (by omega) (by decide) (by decide) (by decide)
  · exact .three (by omega) (by omega) (by decide) (by decide) (by decide)
  · exact .three (by omega) (by omega) (by decide) (by omega) (by omega)
  · exact .four (by omega) (by omega) (by decide) (by decide) (by decide)
  · exact .four (by omega) (by omega) (by decide) (by omega) (by omega)
  · exact .four (by omega) (by omega) (by decide) (by decide) (by decide)

/-- Behind the first byte stands a byte that goes on with the sequence. -/
theorem exists_of_readTail {seen code n code' : Nat} {low high : UInt8} {rest rest' : Bytes}
    (h : readTail seen code (n + 1) low high rest = .ok (code', rest')) :
    ∃ b tail, rest = b :: tail ∧ (low.toNat ≤ b.toNat ∧ b.toNat ≤ high.toNat) ∧
      readTail (seen + 1) (64 * code + (b.toNat - 0x80)) n 0x80 0xbf tail = .ok (code', rest') := by
  cases rest with
  | nil => cases h
  | cons b tail =>
    rw [readTail] at h
    split at h
    · next hrange =>
      simp only [UInt8.le_iff_toNat_le] at hrange
      exact ⟨b, tail, rfl, hrange, h⟩
    · cases h

theorem readTail_zero {seen code code' : Nat} {low high : UInt8} {rest rest' : Bytes}
    (h : readTail seen code 0 low high rest = .ok (code', rest')) :
    code' = code ∧ rest' = rest := by
  rw [readTail, Except.ok.injEq, Prod.mk.injEq] at h
  exact ⟨h.1.symm, h.2.symm⟩

/-- A character is read of its own bytes. -/
theorem eq_append_of_readChar {b : UInt8} {rest rest' : Bytes} {c : Char}
    (h : readChar b rest = .ok (c, rest')) : b :: rest = String.utf8EncodeChar c ++ rest' := by
  unfold readChar at h
  split at h
  · cases h
  next n low high bits hlead =>
  obtain ⟨⟨code, rest'⟩, htail, heq⟩ := map_eq_ok_iff.1 h
  cases heq
  cases leadByte_of_eq_some hlead with
  | one hb =>
    obtain ⟨hcode, hrest⟩ := readTail_zero htail
    rw [hcode, hrest, utf8EncodeChar_one hb]
    rfl
  | two hb hbits =>
    obtain ⟨x, tail, rfl, hx, htail⟩ := exists_of_readTail htail
    obtain ⟨hcode, hrest⟩ := readTail_zero htail
    rw [hrest, utf8EncodeChar_two hb hbits hx hcode]
    rfl
  | three hb hbits hrange hlow hhigh =>
    obtain ⟨x, tail, rfl, hx, htail⟩ := exists_of_readTail htail
    obtain ⟨y, tail, rfl, hy, htail⟩ := exists_of_readTail htail
    obtain ⟨hcode, hrest⟩ := readTail_zero htail
    simp only [UInt8.toNat_ofNat] at hy
    rw [hrest, utf8EncodeChar_three hb hbits (by omega) hy hcode (by omega) (by omega)]
    rfl
  | four hb hbits hrange hlow hhigh =>
    obtain ⟨x, tail, rfl, hx, htail⟩ := exists_of_readTail htail
    obtain ⟨y, tail, rfl, hy, htail⟩ := exists_of_readTail htail
    obtain ⟨z, tail, rfl, hz, htail⟩ := exists_of_readTail htail
    obtain ⟨hcode, hrest⟩ := readTail_zero htail
    simp only [UInt8.toNat_ofNat] at hy hz
    rw [hrest, utf8EncodeChar_four hb hbits (by omega) hy hz hcode (by omega)]
    rfl

theorem flatMap_of_decodeFor {index fuel : Nat} {bytes : Bytes} {cs : List Char}
    (hfuel : bytes.length ≤ fuel) (h : decodeFor index fuel bytes = .ok cs) :
    cs.flatMap String.utf8EncodeChar = bytes := by
  induction fuel generalizing index bytes cs with
  | zero =>
    obtain rfl : bytes = [] := List.length_eq_zero_iff.1 (by omega)
    cases h
    rfl
  | succ fuel ih =>
    cases bytes with
    | nil =>
      cases h
      rfl
    | cons b rest =>
      rw [decodeFor] at h
      split at h
      · cases h
      next c rest' hread =>
      have hbytes := eq_append_of_readChar hread
      have hshorter : rest'.length ≤ fuel := by
        have hlength := congrArg List.length hbytes
        have hpos := String.length_utf8EncodeChar c
        simp only [List.length_cons, List.length_append] at hlength hfuel
        have := Char.utf8Size_pos c
        omega
      obtain ⟨cs', hrest, rfl⟩ := map_eq_ok_iff.1 h
      rw [List.flatMap_cons, ih hshorter hrest, hbytes]

theorem encodeUtf8_of_decodeUtf8 {bytes : Bytes} {s : String} (h : decodeUtf8 bytes = .ok s) :
    encodeUtf8 s = bytes := by
  obtain ⟨cs, hdecode, rfl⟩ := map_eq_ok_iff.1 h
  rw [encodeUtf8, String.toList_ofList, flatMap_of_decodeFor le_rfl hdecode]

end CodecForge.Wire
