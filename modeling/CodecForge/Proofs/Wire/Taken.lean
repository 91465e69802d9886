import CodecForge.Proofs.Wire.Streams
import CodecForge.Proofs.Wire.Utf8

/-!
# Bytes that readers take

What a reader that succeeds says of the bytes it has taken.  `Reader.Takes` relates its result to
them for any input, and is closed under sequencing; the readers of numbers and texts take the very
bytes that their results are written as.
-/

namespace CodecForge.Wire

/-! ### Numbers of bytes -/

theorem ofLittleEndian_lt (b : Bytes) : ofLittleEndian b < 256 ^ b.length := by
  induction b with
  | nil => simp [ofLittleEndian]
  | cons x b ih =>
    have hx := x.toNat_lt
    rw [ofLittleEndian, List.length_cons, Nat.pow_succ]
    omega

theorem littleEndian_ofLittleEndian (b : Bytes) : littleEndian b.length (ofLittleEndian b) = b := by
  induction b with
  | nil => rfl
  | cons x b ih =>
    have hx := x.toNat_lt
    have hlow : (x.toNat + 256 * ofLittleEndian b) % 256 = x.toNat := by omega
    have hhigh : (x.toNat + 256 * ofLittleEndian b) / 256 = ofLittleEndian b := by omega
    rw [ofLittleEndian, List.length_cons, littleEndian, hlow, hhigh, ih, UInt8.ofNat_toNat]

theorem holds_intOfBits (signed : Bool) {w : Width} {bits : Nat} (h : bits < w.bound) :
    w.Holds signed (intOfBits signed w bits) := by
  unfold intOfBits Width.Holds
  cases signed with
  | false => simp [h]
  | true =>
    simp only [Bool.true_and, decide_eq_true_eq, if_true]
    split <;> omega

theorem bitsOfInt_intOfBits (signed : Bool) {w : Width} {bits : Nat} (h : bits < w.bound) :
    bitsOfInt w (intOfBits signed w bits) = bits := by
  unfold intOfBits bitsOfInt
  split
  · rw [Int.sub_emod_right, Int.emod_eq_of_lt (by omega) (by omega), Int.toNat_natCast]
  · rw [Int.emod_eq_of_lt (by omega) (by omega), Int.toNat_natCast]

/-! ### Runs that succeed -/

theorem Input.rest_advance (i : Input) (n : Nat) : (i.advance n).rest = i.rest.drop n := by
  simp [Input.rest, Input.advance, List.drop_drop]

theorem Input.next_eq_of_prefix {i : Input} {b : Bytes} (h : b <+: i.rest) :
    i.next b.length = b := (List.prefix_iff_eq_take.1 h).symm

namespace Reader

variable {α β : Type}

/-- Of every input that the reader makes a value of, it takes the bytes in front, and `P` holds of
the value and these bytes. -/
def Takes (r : Reader α) (P : α → Bytes → Prop) : Prop :=
  ∀ i a i', r i = .ok a i' → ∃ b, b <+: i.rest ∧ i' = i.advance b.length ∧ P a b

variable {r : Reader α} {f : α → Reader β} {P P' : α → Bytes → Prop} {Q : β → Bytes → Prop}

theorem takes_pure {a : α} (h : P a []) : Takes (pure a) P := by
  intro i x i' hrun
  cases hrun
  exact ⟨[], List.nil_prefix, rfl, h⟩

theorem takes_throw (e : CodecError) : Takes (throw e) P := by
  intro i a i' hrun
  cases hrun

theorem Takes.mono (h : Takes r P) (himp : ∀ a b, P a b → P' a b) : Takes r P' := by
  intro i a i' hrun
  obtain ⟨b, hb, hi', hP⟩ := h i a i' hrun
  exact ⟨b, hb, hi', himp a b hP⟩

theorem Takes.bind (hr : Takes r P) (hf : ∀ a b, P a b → Takes (f a) fun x c => Q x (b ++ c)) :
    Takes (r >>= f) Q := by
  intro i x i'' hrun
  obtain ⟨a, i', hfirst, hsecond⟩ := exists_of_bind_eq_ok hrun
  obtain ⟨b, hb, rfl, hP⟩ := hr i a i' hfirst
  obtain ⟨c, hc, rfl, hQ⟩ := hf a b hP _ x i'' hsecond
  refine ⟨b ++ c, ?_, ?_, hQ⟩
  · obtain ⟨rest, hrest⟩ := hb
    rw [Input.rest_advance, ← hrest, List.drop_left] at hc
    rw [← hrest]
    exact (List.prefix_append_right_inj b).2 hc
  · simp only [Input.advance, List.length_append, Nat.add_assoc]

theorem takes_get_bind {f : Input → Reader β} (hf : ∀ i, Takes (f i) Q) : Takes (get >>= f) Q :=
  fun i x i' hrun => hf i i x i' hrun

theorem Takes.map {f : α → β} (hr : Takes r P) (h : ∀ a b, P a b → Q (f a) b) :
    Takes (do return f (← r)) Q :=
  hr.bind fun a b hP => takes_pure (by simpa using h a b hP)

/-! ### Numbers and texts -/

theorem takes_bytes (n : Nat) : Takes (bytes n) fun data b => data = b ∧ b.length = n := by
  intro i data i' hrun
  rw [bytes_apply] at hrun
  split at hrun
  · next hroom =>
    simp only [Bool.and_eq_true, decide_eq_true_eq] at hroom
    cases hrun
    have hlength : (i.next n).length = n := by
      rw [Input.next, List.length_take, List.length_drop]
      omega
    exact ⟨i.next n, List.take_prefix _ _, by rw [hlength], rfl, hlength⟩
  · cases hrun

theorem takes_bits (w : Width) :
    Takes (bits w) fun n b => n < w.bound ∧ b = littleEndian w.bytes n := by
  refine (takes_bytes w.bytes).map ?_
  rintro data _ ⟨rfl, hlength⟩
  rw [w.bound_eq_pow, ← hlength]
  exact ⟨ofLittleEndian_lt data, (littleEndian_ofLittleEndian data).symm⟩

theorem takes_integer (signed : Bool) (w : Width) :
    Takes (integer signed w) fun n b =>
      w.Holds signed n ∧ b = littleEndian w.bytes (bitsOfInt w n) := by
  refine (takes_bits w).map ?_
  rintro n b ⟨hn, rfl⟩
  exact ⟨holds_intOfBits signed hn, by rw [bitsOfInt_intOfBits signed hn]⟩

theorem takes_count : Takes count fun n b => n < UInt32.size ∧ b = Writer.lengthBytes n :=
  takes_bits .w32

theorem takes_bool : Takes bool fun x b => b = [if x then 1 else 0] := by
  refine takes_get_bind fun i => (takes_bits .w8).bind ?_
  rintro n b ⟨-, rfl⟩
  match n with
  | 0 => exact takes_pure rfl
  | 1 => exact takes_pure rfl
  | _ + 2 => exact takes_throw _

theorem takes_length : Takes length fun n b => n < UInt32.size ∧ b = Writer.lengthBytes n := by
  refine takes_get_bind fun i => (takes_bits .w32).bind ?_
  rintro n b ⟨hn, rfl⟩
  refine takes_get_bind fun j => ?_
  dsimp only
  split
  · exact takes_throw _
  · exact takes_pure ⟨hn, List.append_nil _⟩

/-- A text is read of its own bytes. -/
theorem takes_text : Takes text fun s b => (encodeUtf8 s).length < UInt32.size ∧
    b = Writer.lengthBytes (encodeUtf8 s).length ++ encodeUtf8 s := by
  refine takes_length.bind ?_
  rintro n b ⟨hn, rfl⟩
  refine (takes_bytes n).bind ?_
  rintro data _ ⟨rfl, hlength⟩
  cases hdecode : decodeUtf8 data with
  | error fault => exact takes_throw _
  | ok s =>
    have hbytes : encodeUtf8 s = data := encodeUtf8_of_decodeUtf8 hdecode
    refine takes_pure ?_
    rw [hbytes, hlength, List.append_nil]
    exact ⟨hn, rfl⟩

end Reader

end CodecForge.Wire
