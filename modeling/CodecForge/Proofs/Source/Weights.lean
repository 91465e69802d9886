import CodecForge.Source.Parser

/-!
# Weights of token sequences

The weight of a sequence is the number of its tokens, those inside groups included, so it falls with
every token that is read.
-/

namespace CodecForge.Source.Token

variable {ts us : Tokens} {t : Token}

theorem weights_append : weights (ts ++ us) = weights ts + weights us := by
  induction ts with
  | nil => simp [weights]
  | cons t ts ih => simp [weights, ih, Nat.add_assoc]

theorem weight_le_weights (h : t ∈ ts) : t.weight ≤ weights ts := by
  induction ts with
  | nil => cases h
  | cons t' ts ih =>
    rw [weights]
    rcases List.mem_cons.1 h with rfl | h
    · omega
    · exact Nat.le_trans (ih h) (Nat.le_add_left _ _)

theorem weight_pos (t : Token) : 0 < t.weight := by
  cases t <;> simp only [weight] <;> omega

theorem weights_le_of_suffix (h : us <:+ ts) : weights us ≤ weights ts := by
  obtain ⟨before, rfl⟩ := h
  rw [weights_append]
  exact Nat.le_add_left _ _

theorem weights_lt_of_suffix (h : us <:+ ts) (hlength : us.length < ts.length) :
    weights us < weights ts := by
  obtain ⟨before, rfl⟩ := h
  cases before with
  | nil => exact absurd hlength (Nat.lt_irrefl _)
  | cons t before =>
    have := t.weight_pos
    rw [weights_append, weights]
    omega

end CodecForge.Source.Token
