import CodecForge.Proofs.Annotated.Depth
import CodecForge.Proofs.Annotated.Parameters

/-!
# Entries in one annotation or in two

The entries of two annotations that stand one behind the other may be written in one, and the
parameters of a maker may be written in one list or in two, with blanks before the commas or
without.  On a field and among parameters this makes no difference.  On a type it makes one where
brackets are left over that were not read to their end: this is found out at the end of the
annotation, and what is refused before comes first.
-/

namespace CodecForge.Annotated

open CodecForge.Schema CodecForge.Source CodecForge.Plan

section Attributes

variable {σ : Type} {entry : Key → σ → Reading σ} {as bs : List Tokens} {ts us joined : Tokens}

end Attributes

/-! ### Items -/

section Items

/-- The item as a structure with the given fields. -/
def withFields (item : TypeItem) (fields : List Field) : TypeItem :=
  { item with body := .named fields }

variable {g : Grammar} {item : TypeItem} {as bs : List Tokens} {ts us joined : Tokens}

end Items

/-! ### Readers that reach deep enough -/

section Depth

variable {σ : Type} {entry entry' : Key → σ → Reading σ} {as bs : List Tokens}
  {ts us joined : Tokens} {w : Nat}

theorem addEntry_congr (h : ∀ key s, Concur w (entry key s) (entry' key s)) {e : Tokens}
    (he : Token.weights e < w) (x : σ × Bool) : addEntry entry x e = addEntry entry' x e := by
  have hread : Concur w (readEntry entry x.1) (readEntry entry' x.1) :=
    contained_key.concur.bind fun key => h key x.1
  rw [addEntry, addEntry, (hread e false he).1]

theorem weights_spacedLast (glued : Bool) (ts : Tokens) :
    Token.weights (Token.spacedLast glued ts) = Token.weights ts := by
  fun_induction Token.spacedLast glued ts with
  | case1 => rfl
  | case2 t => cases t <;> rfl
  | case3 t t' ts ih => rw [Token.weights, Token.weights, ih]

theorem Lists.weights_le {e : Tokens} (h : Lists as ts) (he : e ∈ as) :
    Token.weights e ≤ Token.weights ts := by
  induction h with
  | nil => cases he
  | last glued e' =>
    obtain rfl := List.mem_singleton.1 he
    exact Nat.le_of_eq (weights_spacedLast glued _).symm
  | cons glued glued' e' h ih =>
    rw [Token.weights_append, weights_spacedLast, Token.weights]
    obtain rfl | he := List.mem_cons.1 he
    · omega
    · have := ih he
      omega

theorem Regrouped.congr {α : Type} {parted joined : Except Refusal α}
    (h : ∀ key s, Concur w (entry key s) (entry' key s)) (hlists : Lists as ts)
    (hts : Token.weights ts < w) (hus : Token.weights us < w)
    (hregrouped : Regrouped entry as us parted joined) :
    Regrouped entry' as us parted joined := by
  obtain heq | ⟨⟨e, he, s, s', hoverfull⟩, hparted, s₀, refusal, hread, hjoined⟩ := hregrouped
  · exact .inl heq
  · rw [addEntry_congr h (Nat.lt_of_le_of_lt (hlists.weights_le he) hts)] at hoverfull
    rw [readEntries_congr h hus] at hread
    exact .inr ⟨⟨e, he, s, s', hoverfull⟩, hparted, s₀, refusal, hread, hjoined⟩

/-- A parameter for the readers of its own tokens is one for all readers that reach as deep. -/
theorem IsParameter.ofDepth {e : Tokens} (h : IsParameter (Grammar.of e) e) {n : Nat}
    (hn : 2 * Token.weights e + 4 ≤ n) : IsParameter (Grammar.ofDepth n) e where
  nonempty := h.nonempty
  commaFree := h.commaFree
  typed tail htail := by
    have hsuffix : tail <:+ e := by
      rw [annotated?] at htail
      split at htail
      · next key place hkey =>
        split at htail
        · cases htail
          exact (List.drop_suffix 1 _).trans ((contained_key e).suffix _ _ hkey)
        · cases htail
      · cases htail
    have hweights := Token.weights_le_of_suffix hsuffix
    have hagree : Grammar.AgreeBelow (Token.weights e + 1) (Token.weights e + 2)
        (Grammar.of e) (Grammar.ofDepth n) := Grammar.agreeBelow_ofDepth (by omega) (by omega)
    rw [← (hagree.type .allowed tail (by omega)).run_eq]
    exact h.typed tail htail

end Depth

end CodecForge.Annotated
