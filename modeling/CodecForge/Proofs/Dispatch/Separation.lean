import CodecForge.Proofs.Dispatch.Order

/-!
# Names whose discriminators differ

Each step of the hash can be undone: it is injective in the state, and in the byte.  So what is
hashed alike stays so with the same bytes behind it and was so without them, and names that differ
in a single byte have different discriminators.  Types of such names never compete for one.
-/

namespace CodecForge.Wire

/-! ### Steps of the hash -/

theorem hashPrime_mul_inverse : hashPrime * 899433627 = 1 := by decide

theorem mul_hashPrime_inj {x y : UInt32} : x * hashPrime = y * hashPrime ↔ x = y := by
  refine ⟨fun h => ?_, fun h => h ▸ rfl⟩
  calc x = x * hashPrime * 899433627 := by
        rw [UInt32.mul_assoc, hashPrime_mul_inverse, UInt32.mul_one]
    _ = y * hashPrime * 899433627 := by rw [h]
    _ = y := by rw [UInt32.mul_assoc, hashPrime_mul_inverse, UInt32.mul_one]

theorem hashStep_inj_left {s s' : UInt32} (b : UInt8) : hashStep s b = hashStep s' b ↔ s = s' := by
  rw [hashStep, hashStep, mul_hashPrime_inj, UInt32.xor_left_inj]

theorem hashStep_inj_right {b b' : UInt8} (s : UInt32) : hashStep s b = hashStep s b' ↔ b = b' := by
  rw [hashStep, hashStep, mul_hashPrime_inj, UInt32.xor_right_inj, UInt8.toUInt32_inj]

theorem foldl_hashStep_inj {s s' : UInt32} (bytes : Bytes) :
    bytes.foldl hashStep s = bytes.foldl hashStep s' ↔ s = s' := by
  induction bytes generalizing s s' with
  | nil => rfl
  | cons b bytes ih => rw [List.foldl_cons, List.foldl_cons, ih, hashStep_inj_left]

/-! ### Hashes of bytes -/

/-- Bytes with the same bytes behind them are hashed alike exactly if they are without them. -/
theorem hashBytes_append_inj {x y : Bytes} (suffix : Bytes) :
    hashBytes (x ++ suffix) = hashBytes (y ++ suffix) ↔ hashBytes x = hashBytes y := by
  rw [hashBytes, hashBytes, List.foldl_append, List.foldl_append, foldl_hashStep_inj]
  rfl

/-- Bytes with one other byte in a place are hashed otherwise. -/
theorem hashBytes_middle_inj (before after : Bytes) {a b : UInt8} :
    hashBytes (before ++ a :: after) = hashBytes (before ++ b :: after) ↔ a = b := by
  rw [List.append_cons before a, List.append_cons before b, hashBytes_append_inj, hashBytes,
    hashBytes, List.foldl_append, List.foldl_append]
  exact hashStep_inj_right _

/-- The names are the same but for one byte. -/
def DifferInOneByte (x y : String) : Prop :=
  ∃ before a b after, a ≠ b ∧ encodeUtf8 x = before ++ a :: after ∧
    encodeUtf8 y = before ++ b :: after

theorem DifferInOneByte.discriminator_ne {x y : String} (h : DifferInOneByte x y) :
    discriminator x ≠ discriminator y := by
  obtain ⟨before, a, b, after, hne, hx, hy⟩ := h
  rw [discriminator, discriminator, hx, hy]
  exact mt (hashBytes_middle_inj before after).1 hne

theorem encodeUtf8_append (x y : String) : encodeUtf8 (x ++ y) = encodeUtf8 x ++ encodeUtf8 y := by
  rw [encodeUtf8, String.toList_append, List.flatMap_append]
  rfl

end CodecForge.Wire

namespace CodecForge.Dispatch.Registry

open CodecForge.Wire

/-- A registration is refused only for one of the same type, or for one of the same discriminator
whose name is not the same but for one byte. -/
theorem exists_of_refused {calls : List Registration} {g : Registration}
    (h : ((run calls).perform g).2 ≠ none) : ∃ g', Accepts calls g' ∧ g'.base = g.base ∧
      (g'.codec.encoded = g.codec.encoded ∨
        discriminator g'.codec.typeName = discriminator g.codec.typeName ∧
          ¬ DifferInOneByte g'.codec.typeName g.codec.typeName) := by
  obtain ⟨g', hg', hcompetes⟩ :=
    taken_run_iff.1 (not_not.1 (mt (accepted_iff_not_taken calls g).2 h))
  obtain ⟨hbase, htype | htag⟩ := Registration.not_apart_iff.1 hcompetes
  · exact ⟨g', hg', hbase, .inl htype⟩
  · exact ⟨g', hg', hbase, .inr ⟨htag, fun hnames => hnames.discriminator_ne htag⟩⟩

/-- Bytes, and names, that are the same but for one byte have different discriminators, and what
follows two names does not change whether theirs are the same.  So among registrations for different
types those whose names are the same but for one byte are never refused for each other. -/
theorem discriminators_separate :
    (∀ (before after : Bytes) (a b : UInt8), a ≠ b →
      hashBytes (before ++ a :: after) ≠ hashBytes (before ++ b :: after)) ∧
    (∀ x y suffix : Bytes, hashBytes (x ++ suffix) = hashBytes (y ++ suffix) ↔
      hashBytes x = hashBytes y) ∧
    (∀ x y : String, DifferInOneByte x y → discriminator x ≠ discriminator y) ∧
    (∀ x y suffix : String, discriminator (x ++ suffix) = discriminator (y ++ suffix) ↔
      discriminator x = discriminator y) ∧
    ∀ (calls : List Registration) (g : Registration), ((run calls).perform g).2 ≠ none →
      ∃ g', Accepts calls g' ∧ g'.base = g.base ∧
        (g'.codec.encoded = g.codec.encoded ∨
          discriminator g'.codec.typeName = discriminator g.codec.typeName ∧
            ¬ DifferInOneByte g'.codec.typeName g.codec.typeName) := by
  refine ⟨fun before after a b hne => mt (hashBytes_middle_inj before after).1 hne,
    fun x y suffix => hashBytes_append_inj suffix, fun x y h => h.discriminator_ne,
    fun x y suffix => ?_, fun calls g => exists_of_refused⟩
  rw [discriminator, discriminator, encodeUtf8_append, encodeUtf8_append, hashBytes_append_inj]
  rfl

/-- Names that differ in more bytes may have the same discriminator. -/
example : discriminator "costarring" = discriminator "liquid" := by decide +kernel

end CodecForge.Dispatch.Registry
