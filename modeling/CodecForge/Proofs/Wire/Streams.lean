import Mathlib.Data.List.Basic
import Mathlib.Tactic.NormNum
import CodecForge.Wire.Reader
import CodecForge.Wire.Writer

/-!
# Writers and readers by their bytes

What a writer appends and what a reader takes, apart from the bytes around them.  `Writer.Emits`
says of a writer which bytes it appends and which lengths it puts in front of data, since a length
that does not fit 32 bits is the one thing it can fail at; `Reader.Yields` says of a reader what it
makes of given bytes at any place of a buffer.  Both are closed under sequencing.
-/

namespace CodecForge.Wire

/-! ### Steps of a stateful computation -/

section Steps

variable {ε σ α β : Type}

theorem bind_eq_of_ok {x : EStateM ε σ α} {s s' : σ} {a : α} (h : x s = .ok a s')
    (f : α → EStateM ε σ β) : (x >>= f) s = f a s' := by
  simp only [bind, EStateM.bind, h]

theorem bind_eq_of_error {x : EStateM ε σ α} {s s' : σ} {e : ε} (h : x s = .error e s')
    (f : α → EStateM ε σ β) : (x >>= f) s = .error e s' := by
  simp only [bind, EStateM.bind, h]

theorem exists_of_bind_eq_ok {x : EStateM ε σ α} {f : α → EStateM ε σ β} {s s'' : σ} {b : β}
    (h : (x >>= f) s = .ok b s'') : ∃ a s', x s = .ok a s' ∧ f a s' = .ok b s'' := by
  cases hx : x s with
  | error e s' =>
    rw [bind_eq_of_error hx] at h
    cases h
  | ok a s' =>
    rw [bind_eq_of_ok hx] at h
    exact ⟨a, s', rfl, h⟩

theorem exists_of_bind_eq_error {x : EStateM ε σ α} {f : α → EStateM ε σ β} {s s'' : σ} {e : ε}
    (h : (x >>= f) s = .error e s'') :
    x s = .error e s'' ∨ ∃ a s', x s = .ok a s' ∧ f a s' = .error e s'' := by
  cases hx : x s with
  | error e' s' =>
    rw [bind_eq_of_error hx] at h
    cases h
    exact .inl rfl
  | ok a s' =>
    rw [bind_eq_of_ok hx] at h
    exact .inr ⟨a, s', rfl, h⟩

theorem get_bind (f : σ → EStateM ε σ β) (s : σ) : ((get : EStateM ε σ σ) >>= f) s = f s s := rfl

end Steps

/-! ### Numbers as bytes -/

theorem ofLittleEndian_littleEndian {n x : Nat} (h : x < 256 ^ n) :
    ofLittleEndian (littleEndian n x) = x := by
  induction n generalizing x with
  | zero =>
    simp only [Nat.pow_zero, Nat.lt_one_iff] at h
    simp [littleEndian, ofLittleEndian, h]
  | succ n ih =>
    rw [Nat.pow_succ] at h
    have hq : x / 256 < 256 ^ n := Nat.div_lt_of_lt_mul (by omega)
    have hr : (UInt8.ofNat (x % 256)).toNat = x % 256 :=
      UInt8.toNat_ofNat_of_lt (Nat.mod_lt _ (by decide))
    rw [littleEndian, ofLittleEndian, ih hq, hr]
    omega

theorem Width.bound_eq_pow (w : Width) : w.bound = 256 ^ w.bytes := by
  cases w <;> norm_num [Width.bound, Width.bytes]

/-- The whole numbers of a width. -/
def Width.Holds (w : Width) (signed : Bool) (n : Int) : Prop :=
  if signed then -(w.bound : Int) ≤ 2 * n ∧ 2 * n < w.bound else 0 ≤ n ∧ n < w.bound

instance (w : Width) (signed : Bool) (n : Int) : Decidable (w.Holds signed n) :=
  inferInstanceAs (Decidable (if signed then _ else _))

theorem bitsOfInt_lt (w : Width) (n : Int) : bitsOfInt w n < w.bound := by
  have hpos : (0 : Int) < w.bound := by cases w <;> decide
  have := Int.emod_lt_of_pos n hpos
  have := Int.emod_nonneg n hpos.ne'
  unfold bitsOfInt
  omega

theorem intOfBits_bitsOfInt {w : Width} {signed : Bool} {n : Int} (h : w.Holds signed n) :
    intOfBits signed w (bitsOfInt w n) = n := by
  have heven : (w.bound : Int) % 2 = 0 := by cases w <;> decide
  have hpos : (0 : Int) < w.bound := by cases w <;> decide
  unfold intOfBits bitsOfInt
  cases signed with
  | false =>
    simp only [Width.Holds, Bool.false_eq_true, if_false] at h
    rw [Int.emod_eq_of_lt h.1 h.2]
    simp [h.1]
  | true =>
    simp only [Width.Holds, if_true] at h
    by_cases hn : 0 ≤ n
    · rw [Int.emod_eq_of_lt hn (by omega), if_neg (by simp; omega)]
      omega
    · have hmod : n % (w.bound : Int) = n + w.bound := by
        rw [← Int.add_emod_right, Int.emod_eq_of_lt (by omega) (by omega)]
      rw [hmod, if_pos (by simp; omega)]
      omega

/-! ### Writers -/

namespace Writer

/-- A length that does not fit 32 bits. -/
def tooGreat (n : Nat) : Bool := UInt32.size ≤ n

/-- The writer puts the lengths in front of data, the first of them first, and appends the bytes if
all of these fit; it refuses the first one that does not. -/
structure Emits (w : Writer Unit) (lengths : List Nat) (b : Bytes) : Prop where
  appends : (∀ n ∈ lengths, n < UInt32.size) → ∀ p, w p = .ok () (p ++ b)
  refuses : ∀ n, lengths.find? tooGreat = some n →
    ∀ p, ∃ b', w p = .error (.invalidData (.lengthTooGreat n)) (p ++ b')

theorem find?_tooGreat_eq_none {lengths : List Nat} :
    lengths.find? tooGreat = none ↔ ∀ n ∈ lengths, n < UInt32.size := by
  simp [tooGreat]

/-- A writer fails exactly if one of its lengths is too great. -/
theorem Emits.fails_iff {w : Writer Unit} {lengths : List Nat} {b : Bytes} (h : Emits w lengths b)
    (p : Bytes) : (∃ e p', w p = .error e p') ↔ ∃ n ∈ lengths, UInt32.size ≤ n := by
  constructor
  · rintro ⟨e, p', hfail⟩
    by_contra hfits
    push Not at hfits
    rw [h.appends hfits p] at hfail
    cases hfail
  · rintro ⟨n, hn, hbig⟩
    cases hfirst : lengths.find? tooGreat with
    | none => exact absurd (find?_tooGreat_eq_none.1 hfirst n hn) (by omega)
    | some m =>
      obtain ⟨b', hfail⟩ := h.refuses m hfirst p
      exact ⟨_, _, hfail⟩

/-- A writer that succeeds has no length that is too great and appends its bytes. -/
theorem Emits.of_eq_ok {w : Writer Unit} {lengths : List Nat} {b p p' : Bytes}
    (h : Emits w lengths b) (hrun : w p = .ok () p') :
    (∀ n ∈ lengths, n < UInt32.size) ∧ p' = p ++ b := by
  have hfits : ∀ n ∈ lengths, n < UInt32.size := by
    intro n hn
    by_contra hbig
    obtain ⟨e, q, hfail⟩ := (h.fails_iff p).2 ⟨n, hn, not_lt.1 hbig⟩
    rw [hfail] at hrun
    cases hrun
  rw [h.appends hfits p] at hrun
  exact ⟨hfits, (EStateM.Result.ok.inj hrun).2.symm⟩

theorem emits_pure : Emits (pure ()) [] [] where
  appends _ p := by rw [List.append_nil]; rfl
  refuses _ h := by simp at h

theorem emits_bytes (b : Bytes) : Emits (bytes b) [] b where
  appends _ _ := rfl
  refuses _ h := by simp at h

theorem Emits.bind {w : Writer Unit} {f : Unit → Writer Unit} {l₁ l₂ : List Nat} {b₁ b₂ : Bytes}
    (h₁ : Emits w l₁ b₁) (h₂ : Emits (f ()) l₂ b₂) :
    Emits (w >>= f) (l₁ ++ l₂) (b₁ ++ b₂) where
  appends hfits p := by
    have hok₁ := h₁.appends (fun n hn => hfits n (List.mem_append_left _ hn)) p
    have hok₂ := h₂.appends (fun n hn => hfits n (List.mem_append_right _ hn)) (p ++ b₁)
    rw [bind_eq_of_ok hok₁, hok₂, List.append_assoc]
  refuses n hn p := by
    rw [List.find?_append] at hn
    cases hfirst : l₁.find? tooGreat with
    | some m =>
      rw [hfirst, Option.some_or, Option.some.injEq] at hn
      subst hn
      obtain ⟨b', hfail⟩ := h₁.refuses m hfirst p
      exact ⟨b', bind_eq_of_error hfail _⟩
    | none =>
      rw [hfirst, Option.none_or] at hn
      have hok₁ := h₁.appends (find?_tooGreat_eq_none.1 hfirst) p
      obtain ⟨b', hfail⟩ := h₂.refuses n hn (p ++ b₁)
      exact ⟨b₁ ++ b', by rw [bind_eq_of_ok hok₁, hfail, List.append_assoc]⟩

theorem Emits.forM {α : Type} {f : α → Writer Unit} {lengths : α → List Nat} {b : α → Bytes}
    {l : List α} (h : ∀ a ∈ l, Emits (f a) (lengths a) (b a)) :
    Emits (l.forM f) (l.flatMap lengths) (l.flatMap b) := by
  induction l with
  | nil => exact emits_pure
  | cons a l ih =>
    have htail := ih fun a' ha' => h a' (List.mem_cons_of_mem a ha')
    exact (h a List.mem_cons_self).bind (f := fun _ => l.forM f) htail

theorem emits_bool (b : Bool) : Emits (bool b) [] [if b then 1 else 0] := emits_bytes _

theorem emits_bits (w : Width) (n : Nat) : Emits (bits w n) [] (littleEndian w.bytes n) :=
  emits_bytes _

theorem emits_integer (w : Width) (n : Int) :
    Emits (integer w n) [] (littleEndian w.bytes (bitsOfInt w n)) := emits_bytes _

/-- The four bytes of a length. -/
def lengthBytes (n : Nat) : Bytes := littleEndian 4 n

theorem emits_length (n : Nat) : Emits (length n) [n] (lengthBytes n) where
  appends hfits p := by
    have hn : n < UInt32.size := hfits n List.mem_cons_self
    rw [length, if_pos hn]
    rfl
  refuses m hm p := by
    have hbig : tooGreat n = true ∧ n = m := by simpa [List.find?_singleton] using hm
    have hn : ¬ n < UInt32.size := by simpa [tooGreat] using hbig.1
    refine ⟨[], ?_⟩
    rw [length, if_neg hn, ← hbig.2, List.append_nil]
    rfl

theorem emits_text (s : String) :
    Emits (text s) [(encodeUtf8 s).length] (lengthBytes (encodeUtf8 s).length ++ encodeUtf8 s) :=
  (emits_length _).bind (f := fun _ => bytes (encodeUtf8 s)) (emits_bytes _)

end Writer

/-! ### Readers -/

namespace Reader

variable {α β : Type}

/-- Wherever the bytes stand in a buffer, the reader makes `a` of them and goes on behind them.
Offsets are numbers of 64 bits, so no buffer has more bytes than that. -/
def Yields (r : Reader α) (b : Bytes) (a : α) : Prop :=
  ∀ before rest : Bytes, (before ++ (b ++ rest)).length < UInt64.size →
    r ⟨before ++ (b ++ rest), before.length⟩ =
      .ok a ⟨before ++ (b ++ rest), before.length + b.length⟩

theorem yields_pure (a : α) : Yields (pure a) [] a := fun _ _ _ => rfl

theorem Yields.bind {r : Reader α} {f : α → Reader β} {b c : Bytes} {a : α} {x : β}
    (hr : Yields r b a) (hf : Yields (f a) c x) : Yields (r >>= f) (b ++ c) x := by
  intro before rest hlen
  have h₁ := hr before (c ++ rest) (by simpa [List.append_assoc] using hlen)
  have h₂ := hf (before ++ b) rest (by simpa [List.append_assoc] using hlen)
  simp only [List.append_assoc, List.length_append] at h₁ h₂ ⊢
  rw [bind_eq_of_ok h₁, h₂, Nat.add_assoc]

theorem Yields.map {r : Reader α} {b : Bytes} {a : α} (hr : Yields r b a) (f : α → β) :
    Yields (do return f (← r)) b (f a) := by
  simpa using hr.bind (f := fun x => pure (f x)) (yields_pure (f a))

theorem Yields.of_map {r : Reader α} {b : Bytes} {a : α} {f : α → β} (hf : f.Injective)
    (hr : Yields (do return f (← r)) b (f a)) : Yields r b a := by
  intro before rest hlen
  have h := hr before rest hlen
  cases hrun : r ⟨before ++ (b ++ rest), before.length⟩ with
  | ok a' s =>
    rw [bind_eq_of_ok hrun] at h
    obtain rfl := hf (EStateM.Result.ok.inj h).1
    rw [(EStateM.Result.ok.inj h).2]
  | error e s =>
    rw [bind_eq_of_error hrun] at h
    cases h

/-- Bytes are read if there are as many, up to an offset that is one. -/
theorem bytes_apply (n : Nat) (i : Input) :
    bytes n i = if fitsOffset (i.offset + n) && i.offset + n ≤ i.buffer.length then
      .ok (i.next n) (i.advance n) else .error (.readFailed i.offset .endOfBuffer) i := by
  simp only [bytes, get_bind]
  split <;> rfl

theorem yields_bytes (b : Bytes) : Yields (bytes b.length) b b := by
  intro before rest hlen
  have hstop : before.length + b.length ≤ (before ++ (b ++ rest)).length := by simp
  have hfits : fitsOffset (before.length + b.length) = true := by simp [fitsOffset]; omega
  have hnext : Input.next ⟨before ++ (b ++ rest), before.length⟩ b.length = b := by
    simp [Input.next]
  rw [bytes_apply, if_pos (by simp only [hfits, hstop, decide_true, Bool.and_self]), hnext]
  rfl

theorem yields_bits {w : Width} {n : Nat} (h : n < w.bound) :
    Yields (bits w) (littleEndian w.bytes n) n := by
  have hb := (yields_bytes (littleEndian w.bytes n)).map ofLittleEndian
  rw [length_littleEndian, ofLittleEndian_littleEndian (w.bound_eq_pow ▸ h)] at hb
  exact hb

theorem yields_integer {signed : Bool} {w : Width} {n : Int} (h : w.Holds signed n) :
    Yields (integer signed w) (littleEndian w.bytes (bitsOfInt w n)) n := by
  have hb := (yields_bits (bitsOfInt_lt w n)).map (intOfBits signed w)
  rwa [intOfBits_bitsOfInt h] at hb

theorem yields_count {n : Nat} (h : n < UInt32.size) : Yields count (Writer.lengthBytes n) n :=
  yields_bits (w := .w32) h

theorem yields_bool (b : Bool) : Yields bool [if b then 1 else 0] b := by
  intro before rest hlen
  have hbits : Yields (bits .w8) [if b then 1 else 0] (if b then 1 else 0) := by
    have := yields_bits (w := .w8) (n := if b then 1 else 0) (by cases b <;> decide)
    cases b <;> exact this
  have hget := hbits before rest hlen
  unfold bool
  rw [get_bind, bind_eq_of_ok hget]
  cases b <;> rfl

/-- A length is read if the data that it announces follows. -/
theorem length_apply {before data rest : Bytes} (hdata : data.length < UInt32.size)
    (hlen : (before ++ (Writer.lengthBytes data.length ++ (data ++ rest))).length < UInt64.size) :
    length ⟨before ++ (Writer.lengthBytes data.length ++ (data ++ rest)), before.length⟩ =
      .ok data.length
        ⟨before ++ (Writer.lengthBytes data.length ++ (data ++ rest)), before.length + 4⟩ := by
  have hbits : bits .w32
      ⟨before ++ (Writer.lengthBytes data.length ++ (data ++ rest)), before.length⟩ =
        .ok data.length
          ⟨before ++ (Writer.lengthBytes data.length ++ (data ++ rest)), before.length + 4⟩ :=
    yields_count hdata before (data ++ rest) hlen
  have hroom : ¬ data.length > Input.remaining
      ⟨before ++ (Writer.lengthBytes data.length ++ (data ++ rest)), before.length + 4⟩ := by
    simp [Input.remaining, Writer.lengthBytes]
    omega
  unfold length
  rw [get_bind, bind_eq_of_ok hbits, get_bind]
  dsimp only
  rw [if_neg hroom]
  rfl

theorem yields_text {s : String} (hs : (encodeUtf8 s).length < UInt32.size)
    (hdecode : decodeUtf8 (encodeUtf8 s) = .ok s) :
    Yields text (Writer.lengthBytes (encodeUtf8 s).length ++ encodeUtf8 s) s := by
  intro before rest hlen
  rw [List.append_assoc] at hlen ⊢
  have hlength := length_apply hs hlen
  have hbytes := yields_bytes (encodeUtf8 s)
    (before ++ Writer.lengthBytes (encodeUtf8 s).length) rest
    (by simpa [List.append_assoc] using hlen)
  simp only [List.append_assoc, List.length_append, Writer.lengthBytes, length_littleEndian]
    at hbytes hlength ⊢
  unfold text
  rw [bind_eq_of_ok hlength, bind_eq_of_ok hbytes, hdecode, Nat.add_assoc]
  rfl

end Reader

/-! ### Readers that undo writers -/

section ReadAs

variable {α β : Type}

/-- Whatever the writer appends, wherever it does, the reader makes `a` of it. -/
def Writer.ReadAs (w : Writer Unit) (r : Reader α) (a : α) : Prop :=
  ∀ p p', w p = .ok () p' → ∃ b, p' = p ++ b ∧ Reader.Yields r b a

namespace Writer

theorem readAs_pure (a : α) : ReadAs (pure ()) (pure a) a := by
  intro p p' h
  cases h
  exact ⟨[], (List.append_nil p).symm, Reader.yields_pure a⟩

theorem ReadAs.bind {w : Writer Unit} {w' : Unit → Writer Unit} {r : Reader α}
    {f : α → Reader β} {a : α} {x : β} (h : ReadAs w r a) (h' : ReadAs (w' ()) (f a) x) :
    ReadAs (w >>= w') (r >>= f) x := by
  intro p p' hrun
  obtain ⟨_, q, hw, hw'⟩ := exists_of_bind_eq_ok hrun
  obtain ⟨b, rfl, hb⟩ := h p q hw
  obtain ⟨c, rfl, hc⟩ := h' _ p' hw'
  exact ⟨b ++ c, List.append_assoc p b c, hb.bind hc⟩

theorem ReadAs.bind_of_eq_pure {w : Writer Unit} {r : Reader α} {f : α → Reader β} {a : α} {x : β}
    (h : ReadAs w r a) (hf : f a = pure x) : ReadAs w (r >>= f) x := by
  intro p p' hrun
  obtain ⟨b, hp', hb⟩ := h p p' hrun
  have hx : Reader.Yields (f a) [] x := hf ▸ Reader.yields_pure x
  have hbx := hb.bind hx
  rw [List.append_nil] at hbx
  exact ⟨b, hp', hbx⟩

theorem ReadAs.map {w : Writer Unit} {r : Reader α} {a : α} (h : ReadAs w r a) (f : α → β) :
    ReadAs w (do return f (← r)) (f a) :=
  h.bind_of_eq_pure rfl

theorem Emits.readAs {w : Writer Unit} {lengths : List Nat} {b : Bytes} {r : Reader α} {a : α}
    (h : Emits w lengths b) (hr : (∀ n ∈ lengths, n < UInt32.size) → Reader.Yields r b a) :
    ReadAs w r a := by
  intro p p' hrun
  obtain ⟨hfits, hp'⟩ := h.of_eq_ok hrun
  exact ⟨b, hp', hr hfits⟩

end Writer

end ReadAs

end CodecForge.Wire
