import Mathlib.Data.List.Forall2
import Mathlib.Data.List.Nodup

/-!
# Lists of keyed and of checked elements

Lookup in lists of pairs with distinct keys, and what a traversal that succeeds says of each
element.
-/

namespace CodecForge

/-! ### Lookup by key -/

section Lookup

variable {κ α : Type} [BEq κ] [LawfulBEq κ] {l : List (κ × α)} {k : κ} {a : α}

theorem lookup_eq_some_iff_mem (hl : (l.map Prod.fst).Nodup) :
    l.lookup k = some a ↔ (k, a) ∈ l := by
  induction l with
  | nil => simp
  | cons b l ih =>
    obtain ⟨k', a'⟩ := b
    rw [List.map_cons, List.nodup_cons] at hl
    rw [List.lookup_cons, List.mem_cons, Prod.mk.injEq]
    by_cases h : k = k'
    · subst h
      have hk : (k, a) ∉ l := fun hmem => hl.1 (List.mem_map.2 ⟨_, hmem, rfl⟩)
      simp [hk, eq_comm]
    · simp only [beq_eq_false_iff_ne.2 h, h, false_and, false_or]
      exact ih hl.2

theorem lookup_append_singleton (hk : l.lookup k = none) (k' : κ) [Decidable (k' = k)] :
    (l ++ [(k, a)]).lookup k' = if k' = k then some a else l.lookup k' := by
  rw [List.lookup_append]
  split
  · next h => simp [h, hk]
  · next h => simp [List.lookup_cons, beq_eq_false_iff_ne.2 h]

theorem lookup_map_modify (f : α → α) (k' : κ) [Decidable (k' = k)] :
    (l.map fun b => if b.1 == k then (b.1, f b.2) else b).lookup k' =
      if k' = k then (l.lookup k).map f else l.lookup k' := by
  induction l with
  | nil => simp
  | cons b l ih =>
    obtain ⟨k'', a'⟩ := b
    rw [List.map_cons, List.lookup_cons, List.lookup_cons, ih]
    by_cases hb : k'' = k
    · subst hb
      by_cases h : k' = k''
      · simp [h]
      · simp [h, beq_eq_false_iff_ne.2 h, List.lookup_cons]
    · by_cases h : k' = k
      · subst h
        simp [hb, beq_eq_false_iff_ne.2 (Ne.symm hb)]
      · simp [hb, h, List.lookup_cons]

theorem lookup_map_replace (k' : κ) [Decidable (k' = k)] :
    (l.map fun b => if b.1 == k then (k, a) else b).lookup k' =
      if k' = k then (l.lookup k).map fun _ => a else l.lookup k' := by
  rw [← lookup_map_modify (fun _ => a)]
  congr 2
  funext b
  split
  · next h => rw [eq_of_beq h]
  · rfl

section Keyed

variable {key : α → κ} {as : List α}

theorem lookup_map_key_iff (hkeys : (as.map key).Nodup) :
    (as.map fun a => (key a, a)).lookup k = some a ↔ a ∈ as ∧ key a = k := by
  have hnodup : ((as.map fun a => (key a, a)).map Prod.fst).Nodup := by
    rw [List.map_map]
    exact hkeys
  rw [lookup_eq_some_iff_mem hnodup]
  simp only [List.mem_map, Prod.mk.injEq]
  constructor
  · rintro ⟨_, ha, hk, rfl⟩
    exact ⟨ha, hk⟩
  · rintro ⟨ha, hk⟩
    exact ⟨a, ha, hk, rfl⟩

/-- Where keys are distinct, one element alone has the key of an element. -/
theorem filter_key_eq_singleton (hkeys : (as.map key).Nodup) {a : α} (ha : a ∈ as) :
    (as.filter fun b => key b == key a) = [a] := by
  induction as with
  | nil => cases ha
  | cons b as ih =>
    rw [List.map_cons, List.nodup_cons] at hkeys
    rcases List.mem_cons.1 ha with rfl | ha
    · have hrest : (as.filter fun b => key b == key a) = [] := by
        refine List.filter_eq_nil_iff.2 fun b hb heq => hkeys.1 ?_
        exact eq_of_beq heq ▸ List.mem_map_of_mem hb
      rw [List.filter_cons, if_pos (beq_self_eq_true (key a)), hrest]
    · have hne : ¬ (key b == key a) = true :=
        fun heq => hkeys.1 (eq_of_beq heq ▸ List.mem_map_of_mem ha)
      rw [List.filter_cons, if_neg hne]
      exact ih hkeys.2 ha

theorem notMem_of_lookup_map_key (h : (as.map fun a => (key a, a)).lookup k = none) :
    k ∉ as.map key := by
  intro hmem
  obtain ⟨a, ha, rfl⟩ := List.mem_map.1 hmem
  have hne := List.lookup_eq_none_iff.1 h (key a, a) (List.mem_map.2 ⟨a, ha, rfl⟩)
  simp at hne

end Keyed

end Lookup

/-- A place in a list that is longer by one is the new one or one of the old. -/
theorem append_singleton_eq_append_cons_iff {α : Type} {as before after : List α} {a b : α} :
    as ++ [a] = before ++ b :: after ↔
      as = before ∧ a = b ∧ after = [] ∨
        ∃ after', as = before ++ b :: after' ∧ after = after' ++ [a] := by
  constructor
  · intro h
    rcases List.eq_nil_or_concat after with rfl | ⟨after', last, rfl⟩
    · obtain ⟨rfl, hlast⟩ := List.append_inj' h rfl
      exact .inl ⟨rfl, List.singleton_inj.1 hlast, rfl⟩
    · rw [List.concat_eq_append, ← List.cons_append, ← List.append_assoc] at h
      obtain ⟨rfl, hlast⟩ := List.append_inj' h rfl
      obtain rfl := List.singleton_inj.1 hlast
      exact .inr ⟨after', rfl, List.concat_eq_append⟩
  · rintro (⟨rfl, rfl, rfl⟩ | ⟨after', rfl, rfl⟩)
    · rfl
    · rw [List.append_assoc, List.cons_append]

/-! ### Lists of related elements -/

section Related

variable {α β : Type} {R : α → β → Prop} {as : List α} {bs : List β}

theorem forall₂_exists_left (h : List.Forall₂ R as bs) {b : β} (hb : b ∈ bs) :
    ∃ a ∈ as, R a b := by
  induction h with
  | nil => cases hb
  | cons hab _ ih =>
    rcases List.mem_cons.1 hb with rfl | hb
    · exact ⟨_, List.mem_cons_self, hab⟩
    · obtain ⟨a, ha, hR⟩ := ih hb
      exact ⟨a, List.mem_cons_of_mem _ ha, hR⟩

theorem forall₂_exists_right (h : List.Forall₂ R as bs) {a : α} (ha : a ∈ as) :
    ∃ b ∈ bs, R a b :=
  forall₂_exists_left h.flip ha

theorem exists_forall₂_iff : (∃ bs, List.Forall₂ R as bs) ↔ ∀ a ∈ as, ∃ b, R a b := by
  constructor
  · rintro ⟨bs, h⟩ a ha
    obtain ⟨b, -, hab⟩ := forall₂_exists_right h ha
    exact ⟨b, hab⟩
  · intro h
    induction as with
    | nil => exact ⟨[], .nil⟩
    | cons a as ih =>
      rw [List.forall_mem_cons] at h
      obtain ⟨b, hab⟩ := h.1
      obtain ⟨bs, habs⟩ := ih h.2
      exact ⟨b :: bs, .cons hab habs⟩

theorem forall_mem_of_forall₂ {P : β → Prop} (h : List.Forall₂ R as bs)
    (hP : ∀ a ∈ as, ∀ b, R a b → P b) : ∀ b ∈ bs, P b := by
  intro b hb
  obtain ⟨a, ha, hab⟩ := forall₂_exists_left h hb
  exact hP a ha b hab

theorem forall₂_trans {γ : Type} {S : β → γ → Prop} {T : α → γ → Prop} {cs : List γ}
    (h : List.Forall₂ R as bs) (h' : List.Forall₂ S bs cs)
    (hT : ∀ a ∈ as, ∀ b c, R a b → S b c → T a c) : List.Forall₂ T as cs := by
  induction h generalizing cs with
  | nil =>
    cases h'
    exact .nil
  | cons hab _ ih =>
    cases h' with
    | cons hbc hrest =>
      rw [List.forall_mem_cons] at hT
      exact .cons (hT.1 _ _ hab hbc) (ih hrest hT.2)

theorem mem_flatMap_iff_of_forall₂ {γ : Type} {f : α → List γ} {g : β → List γ}
    (h : List.Forall₂ R as bs) (n : γ) (hR : ∀ a ∈ as, ∀ b, R a b → (n ∈ g b ↔ n ∈ f a)) :
    n ∈ bs.flatMap g ↔ n ∈ as.flatMap f := by
  induction h with
  | nil => simp
  | cons hab _ ih =>
    simp only [List.flatMap_cons, List.mem_append]
    rw [hR _ List.mem_cons_self _ hab, ih fun a ha => hR a (List.mem_cons_of_mem _ ha)]

theorem exists_mem_flatten_iff_of_forall₂ {S : α → List β → Prop} {bss : List (List β)}
    {P : β → Prop} {Q : α → Prop} (h : List.Forall₂ S as bss)
    (hS : ∀ a ∈ as, ∀ bs, S a bs → ((∃ b ∈ bs, P b) ↔ Q a)) :
    (∃ b ∈ bss.flatten, P b) ↔ ∃ a ∈ as, Q a := by
  induction h with
  | nil => simp
  | cons hab _ ih =>
    simp only [List.flatten_cons, List.mem_append, or_and_right, exists_or,
      List.exists_mem_cons_iff]
    rw [hS _ List.mem_cons_self _ hab, ih fun a ha => hS a (List.mem_cons_of_mem _ ha)]

theorem forall₂_filterMap (f : α → Option β) (as : List α) :
    List.Forall₂ (fun a b => f a = some b) (as.filter fun a => (f a).isSome) (as.filterMap f) := by
  induction as with
  | nil => exact .nil
  | cons a as ih =>
    cases ha : f a with
    | none => simpa [List.filter_cons, List.filterMap_cons, ha] using ih
    | some b => simpa [List.filter_cons, List.filterMap_cons, ha] using ih

/-- If each element is related to a list of one where `P` holds of it, and to the empty list where
it does not, the elements that have `P` stand for the elements of these lists. -/
theorem forall₂_filter_flatten {P : α → Prop} [DecidablePred P] {S : α → List β → Prop}
    {bss : List (List β)} (h : List.Forall₂ S as bss)
    (hS : ∀ a ∈ as, ∀ bs, S a bs → P a ∧ (∃ b, R a b ∧ bs = [b]) ∨ ¬ P a ∧ bs = []) :
    List.Forall₂ R (as.filter fun a => P a) bss.flatten := by
  induction h with
  | nil => exact .nil
  | @cons a bs as bss hab _ ih =>
    have hrest := ih fun a' ha' => hS a' (List.mem_cons_of_mem _ ha')
    rw [List.flatten_cons]
    obtain ⟨hP, b, hb, rfl⟩ | ⟨hP, rfl⟩ := hS a List.mem_cons_self bs hab
    · rw [List.filter_cons, if_pos (decide_eq_true hP)]
      exact .cons hb hrest
    · rw [List.filter_cons, if_neg (by simpa using hP)]
      exact hrest

theorem forall₂_zipIdx {γ : Type} {S : α → γ → Prop} {g : β → Nat → γ}
    (h : List.Forall₂ R as bs) (hS : ∀ a ∈ as, ∀ b, R a b → ∀ i, S a (g b i)) (start : Nat) :
    List.Forall₂ S as ((bs.zipIdx start).map fun x => g x.1 x.2) := by
  induction h generalizing start with
  | nil => exact .nil
  | cons hab _ ih =>
    rw [List.zipIdx_cons, List.map_cons]
    exact .cons (hS _ List.mem_cons_self _ hab start)
      (ih (fun a ha => hS a (List.mem_cons_of_mem _ ha)) _)

theorem map_eq_map_of_forall₂ {γ : Type} {f : α → γ} {g : β → γ}
    (h : List.Forall₂ (fun a b => f a = g b) as bs) : as.map f = bs.map g := by
  rw [← List.forall₂_eq_eq_eq, List.forall₂_map_left_iff, List.forall₂_map_right_iff]
  exact h

end Related

/-- A traversal depends on what it does at the elements. -/
theorem forM_congr {μ : Type → Type} [Monad μ] {α : Type} {f g : α → μ PUnit} {as : List α}
    (h : ∀ a ∈ as, f a = g a) : as.forM f = as.forM g := by
  induction as with
  | nil => rfl
  | cons a as ih =>
    rw [List.forall_mem_cons] at h
    have htail := ih h.2
    rw [List.forM_eq_forM] at htail ⊢
    rw [List.forM_cons, List.forM_cons, h.1, htail]

section Checked

variable {ε α β : Type}

theorem bind_eq_ok_iff {x : Except ε α} {f : α → Except ε β} {b : β} :
    x >>= f = .ok b ↔ ∃ a, x = .ok a ∧ f a = .ok b := by
  cases x with
  | error e => simp [bind, Except.bind]
  | ok a => simp [bind, Except.bind]

theorem bind_eq_error_iff {x : Except ε α} {f : α → Except ε β} {e : ε} :
    x >>= f = .error e ↔ x = .error e ∨ ∃ a, x = .ok a ∧ f a = .error e := by
  cases x with
  | error e' => simp [bind, Except.bind]
  | ok a => simp [bind, Except.bind]

theorem exists_error_iff {x : Except ε α} : (∃ e, x = .error e) ↔ ¬ ∃ a, x = .ok a := by
  cases x <;> simp

theorem exists_of_isOk {x : Except ε α} (h : x.isOk = true) : ∃ a, x = .ok a := by
  cases x with
  | error e => cases h
  | ok a => exact ⟨a, rfl⟩

theorem mapError_eq_ok_iff {ε' : Type} {x : Except ε α} {f : ε → ε'} {a : α} :
    x.mapError f = .ok a ↔ x = .ok a := by
  cases x <;> simp [Except.mapError]

theorem map_eq_ok_iff {x : Except ε α} {f : α → β} {b : β} :
    x.map f = .ok b ↔ ∃ a, x = .ok a ∧ f a = b := by
  cases x <;> simp [Except.map]

theorem map_eq_error_iff {x : Except ε α} {f : α → β} {e : ε} :
    x.map f = .error e ↔ x = .error e := by
  cases x <;> simp [Except.map]

theorem forall₂_of_mapM_eq_ok {f : α → Except ε β} {as : List α} {bs : List β}
    (h : as.mapM f = .ok bs) : List.Forall₂ (fun a b => f a = .ok b) as bs := by
  induction as generalizing bs with
  | nil =>
    cases h
    exact .nil
  | cons a as ih =>
    rw [List.mapM_cons] at h
    obtain ⟨b, hb, h⟩ := bind_eq_ok_iff.1 h
    obtain ⟨bs', hbs', h⟩ := bind_eq_ok_iff.1 h
    cases h
    exact .cons hb (ih hbs')

theorem mapM_eq_ok_iff {f : α → Except ε β} {as : List α} {bs : List β} :
    as.mapM f = .ok bs ↔ List.Forall₂ (fun a b => f a = .ok b) as bs := by
  refine ⟨forall₂_of_mapM_eq_ok, fun h => ?_⟩
  induction h with
  | nil => rfl
  | cons hab _ ih => rw [List.mapM_cons, hab, ih]; rfl

/-- A traversal fails as the first of its steps that fails. -/
theorem mapM_eq_error_iff {f : α → Except ε β} {as : List α} {e : ε} :
    as.mapM f = .error e ↔ ∃ before a after, as = before ++ a :: after ∧
      (∀ a' ∈ before, ∃ b, f a' = .ok b) ∧ f a = .error e := by
  induction as with
  | nil =>
    constructor
    · intro h
      cases h
    · rintro ⟨before, a, after, h, -⟩
      cases before <;> cases h
  | cons a as ih =>
    rw [List.mapM_cons, bind_eq_error_iff]
    constructor
    · rintro (ha | ⟨b, hb, h⟩)
      · exact ⟨[], a, as, rfl, by simp, ha⟩
      · obtain hrest | ⟨bs, -, h⟩ := bind_eq_error_iff.1 h
        · obtain ⟨before, a', after, rfl, hbefore, ha'⟩ := ih.1 hrest
          refine ⟨a :: before, a', after, rfl, ?_, ha'⟩
          exact List.forall_mem_cons.2 ⟨⟨b, hb⟩, hbefore⟩
        · cases h
    · rintro ⟨before, a', after, h, hbefore, ha'⟩
      cases before with
      | nil =>
        cases h
        exact .inl ha'
      | cons a'' before =>
        obtain ⟨rfl, rfl⟩ := List.cons.inj h
        rw [List.forall_mem_cons] at hbefore
        obtain ⟨b, hb⟩ := hbefore.1
        have hrest := ih.2 ⟨before, a', after, rfl, hbefore.2, ha'⟩
        exact .inr ⟨b, hb, bind_eq_error_iff.2 (.inl hrest)⟩

theorem forM_eq_map_mapM {f : α → Except ε PUnit} {as : List α} :
    as.forM f = (as.mapM f).map fun _ => ⟨⟩ := by
  induction as with
  | nil => rfl
  | cons a as ih =>
    rw [List.forM_eq_forM] at ih ⊢
    rw [List.forM_cons, List.mapM_cons, ih]
    cases f a with
    | error e => rfl
    | ok b => cases as.mapM f <;> rfl

/-- A traversal succeeds if all of its steps do. -/
theorem exists_mapM_eq_ok_iff {f : α → Except ε β} {as : List α} :
    (∃ bs, as.mapM f = .ok bs) ↔ ∀ a ∈ as, ∃ b, f a = .ok b := by
  simp only [mapM_eq_ok_iff]
  exact exists_forall₂_iff

end Checked

end CodecForge
