import Mathlib.Data.List.Induction
import Mathlib.Data.List.Perm.Subperm
import CodecForge.Proofs.Wire.Order

/-!
# The entries of maps

`HoldsLast` says what is in a map that a list of pairs was put into, one after the other: each key
of the list once, with its last value.  The sorted map and the map without order of a list both are
such maps, and the keys of the sorted one ascend.
-/

namespace CodecForge.Wire

namespace Value

/-! ### The last entries of a list -/

/-- The entry is in the list, and none behind it has its key. -/
def IsLast (e : Value × Value) (es : List (Value × Value)) : Prop :=
  ∃ before after, es = before ++ e :: after ∧ ∀ x ∈ after, x.1 ≠ e.1

/-- The map has each key of the list once, with its last value in the list. -/
structure HoldsLast (es m : List (Value × Value)) : Prop where
  nodup : (m.map Prod.fst).Nodup
  mem_iff : ∀ e, e ∈ m ↔ IsLast e es

/-- The keys of the entries ascend. -/
def Ascending (m : List (Value × Value)) : Prop :=
  (m.map Prod.fst).Pairwise fun a b => compare a b = .lt

section Last

variable {es m : List (Value × Value)} {e x : Value × Value}

theorem not_isLast_nil : ¬ IsLast e [] := by
  rintro ⟨before, after, h, -⟩
  simp at h

theorem isLast_append_singleton : IsLast e (es ++ [x]) ↔ e = x ∨ IsLast e es ∧ e.1 ≠ x.1 := by
  constructor
  · rintro ⟨before, after, h, hafter⟩
    rcases List.eq_nil_or_concat after with rfl | ⟨after', y, rfl⟩
    · exact .inl (List.cons.inj (List.append_inj_right' h rfl)).1.symm
    · rw [List.concat_eq_append, ← List.cons_append, ← List.append_assoc] at h
      obtain ⟨rfl, hy⟩ := List.append_inj' h rfl
      obtain rfl : x = y := by simpa using hy
      rw [List.concat_eq_append, List.forall_mem_append] at hafter
      exact .inr ⟨⟨before, after', rfl, hafter.1⟩, (hafter.2 x (by simp)).symm⟩
  · rintro (rfl | ⟨⟨before, after, rfl, hafter⟩, hne⟩)
    · exact ⟨es, [], rfl, by simp⟩
    · refine ⟨before, after ++ [x], by simp, List.forall_mem_append.2 ⟨hafter, ?_⟩⟩
      simpa using hne.symm

theorem IsLast.mem (h : IsLast e es) : e ∈ es := by
  obtain ⟨before, after, rfl, -⟩ := h
  simp

/-- Where keys come once, every entry is the last one of its key. -/
theorem isLast_iff_mem (hes : (es.map Prod.fst).Nodup) : IsLast e es ↔ e ∈ es := by
  refine ⟨IsLast.mem, fun he => ?_⟩
  obtain ⟨before, after, rfl⟩ := List.append_of_mem he
  rw [List.map_append, List.map_cons, List.nodup_append, List.nodup_cons] at hes
  refine ⟨before, after, rfl, fun x hx heq => hes.2.1.1 ?_⟩
  exact heq ▸ List.mem_map_of_mem hx

theorem HoldsLast.mem (h : HoldsLast es m) (he : e ∈ m) : e ∈ es := ((h.mem_iff e).1 he).mem

/-- A map of entries with distinct keys has these entries. -/
theorem HoldsLast.perm (h : HoldsLast es m) (hes : (es.map Prod.fst).Nodup) : m.Perm es := by
  refine (List.perm_ext_iff_of_nodup h.nodup.of_map hes.of_map).2 fun e => ?_
  rw [h.mem_iff, isLast_iff_mem hes]

theorem HoldsLast.length_le (h : HoldsLast es m) : m.length ≤ es.length :=
  (List.Nodup.subperm h.nodup.of_map fun _ he => h.mem he).length_le

end Last

/-! ### Putting entries into maps -/

section Put

variable {k : WireType} {es m : List (Value × Value)} {e : Value × Value} {key value : Value}

/-- If each entry that is put into a map replaces the one with its key, and something holds of the
empty map and goes on to hold, then it holds in the end, and the last entries are in the map. -/
theorem foldl_put {put : List (Value × Value) → Value × Value → List (Value × Value)}
    {P : List (Value × Value) → Prop} (hnil : P [])
    (hput : ∀ m, P m → ∀ x ∈ es,
      P (put m x) ∧ ∀ e, e ∈ put m x ↔ e = x ∨ e ∈ m ∧ e.1 ≠ x.1) :
    P (es.foldl put []) ∧ ∀ e, e ∈ es.foldl put [] ↔ IsLast e es := by
  -- from the end, since the entry that is put last decides what its key has
  induction es using List.reverseRecOn with
  | nil => exact ⟨hnil, fun e => by simp [not_isLast_nil]⟩
  | append_singleton es x ih =>
    obtain ⟨hgood, hmem⟩ := ih fun m hm y hy => hput m hm y (List.mem_append_left _ hy)
    obtain ⟨hgood', hmem'⟩ := hput _ hgood x (by simp)
    rw [List.foldl_append, List.foldl_cons, List.foldl_nil]
    refine ⟨hgood', fun e => ?_⟩
    rw [hmem', hmem, isLast_append_singleton]

theorem compare_self_of_hasType (h : HasType k key) : compare key key = .eq := by
  have hswap := (compares_of_hasType h h).swap
  cases hcmp : compare key key <;> rw [hcmp] at hswap <;> simp at hswap ⊢

theorem ne_of_compare_eq_lt (h : HasType k key) (hlt : compare key value = .lt) : key ≠ value := by
  rintro rfl
  rw [compare_self_of_hasType h] at hlt
  cases hlt

theorem Ascending.nodup (hk : ∀ e ∈ m, HasType k e.1) (h : Ascending m) :
    (m.map Prod.fst).Nodup := by
  refine List.Pairwise.imp_of_mem (fun {a b} ha _ hlt => ?_) h
  obtain ⟨e, he, rfl⟩ := List.mem_map.1 ha
  exact ne_of_compare_eq_lt (hk e he) hlt

theorem ascending_cons {x : Value × Value} :
    Ascending (x :: m) ↔ (∀ e ∈ m, compare x.1 e.1 = .lt) ∧ Ascending m := by
  simp [Ascending]

/-- What is in front of the first key of a sorted map is in front of all of them. -/
theorem lt_of_lt_head {x : Value × Value} (hkey : HasType k key)
    (hk : ∀ e ∈ x :: m, HasType k e.1) (hasc : Ascending (x :: m))
    (hlt : compare key x.1 = .lt) : ∀ e ∈ x :: m, compare key e.1 = .lt := by
  rw [List.forall_mem_cons] at hk ⊢
  refine ⟨hlt, fun e he => ?_⟩
  exact carries_of_hasType hkey hk.1 (hk.2 e he) hlt ((ascending_cons.1 hasc).1 e he)

/-- An entry that replaces the first one is new, and those behind it have other keys. -/
theorem mem_replace_head {x : Value × Value} (hne : ∀ e ∈ m, e.1 ≠ x.1) :
    e ∈ (x.1, value) :: m ↔ e = (x.1, value) ∨ e ∈ x :: m ∧ e.1 ≠ x.1 := by
  simp only [List.mem_cons, or_and_right]
  rw [and_iff_left_of_imp (hne e), or_iff_right (a := e = x ∧ e.1 ≠ x.1)]
  rintro ⟨rfl, h⟩
  exact h rfl

/-- The first entry stays where one with another key is put behind it. -/
theorem mem_keep_head {x : Value × Value} {m' : List (Value × Value)} (hne : x.1 ≠ key)
    (h : e ∈ m' ↔ e = (key, value) ∨ e ∈ m ∧ e.1 ≠ key) :
    e ∈ x :: m' ↔ e = (key, value) ∨ e ∈ x :: m ∧ e.1 ≠ key := by
  simp only [List.mem_cons, or_and_right, h]
  rw [and_iff_left_of_imp (a := e = x) (fun heq => heq ▸ hne), or_left_comm]

theorem mem_insertSorted (hkey : HasType k key) (hk : ∀ e ∈ m, HasType k e.1)
    (hasc : Ascending m) : e ∈ insertSorted key value m ↔ e = (key, value) ∨ e ∈ m ∧ e.1 ≠ key := by
  induction m with
  | nil => simp [insertSorted]
  | cons x m ih =>
    have hk' := List.forall_mem_cons.1 hk
    obtain ⟨hhead, htail⟩ := ascending_cons.1 hasc
    rw [insertSorted]
    cases hcmp : compare key x.1 with
    | lt =>
      have hne : ∀ e ∈ x :: m, e.1 ≠ key := fun e he =>
        (ne_of_compare_eq_lt hkey (lt_of_lt_head hkey hk hasc hcmp e he)).symm
      rw [List.mem_cons, and_iff_left_of_imp (hne e)]
    | eq =>
      obtain rfl := (compares_of_hasType hkey hk'.1).eq_of_compare hcmp
      exact mem_replace_head fun e he => (ne_of_compare_eq_lt hk'.1 (hhead e he)).symm
    | gt =>
      have hne : x.1 ≠ key := by
        rintro rfl
        rw [compare_self_of_hasType hkey] at hcmp
        cases hcmp
      exact mem_keep_head hne (ih hk'.2 htail)

theorem ascending_insertSorted (hkey : HasType k key) (hk : ∀ e ∈ m, HasType k e.1)
    (hasc : Ascending m) : Ascending (insertSorted key value m) := by
  induction m with
  | nil => simp [insertSorted, Ascending]
  | cons x m ih =>
    have hk' := List.forall_mem_cons.1 hk
    obtain ⟨hhead, htail⟩ := ascending_cons.1 hasc
    rw [insertSorted]
    cases hcmp : compare key x.1 with
    | lt => exact ascending_cons.2 ⟨lt_of_lt_head hkey hk hasc hcmp, hasc⟩
    | eq => exact ascending_cons.2 ⟨hhead, htail⟩
    | gt =>
      refine ascending_cons.2 ⟨fun e he => ?_, ih hk'.2 htail⟩
      obtain rfl | ⟨he, -⟩ := (mem_insertSorted hkey hk'.2 htail).1 he
      · rw [(compares_of_hasType hkey hk'.1).swap, hcmp]
        rfl
      · exact hhead e he

theorem sameKey_iff_of_hasType (hkey : HasType k key) {key' : Value} (hkey' : HasType k key') :
    sameKey key key' = true ↔ key' = key := by
  rw [sameKey, beq_iff_eq]
  constructor
  · exact fun h => ((compares_of_hasType hkey hkey').eq_of_compare h).symm
  · rintro rfl
    exact compare_self_of_hasType hkey

theorem mem_insertHashed (hkey : HasType k key) (hk : ∀ e ∈ m, HasType k e.1)
    (hnodup : (m.map Prod.fst).Nodup) :
    e ∈ insertHashed key value m ↔ e = (key, value) ∨ e ∈ m ∧ e.1 ≠ key := by
  induction m with
  | nil => simp [insertHashed]
  | cons x m ih =>
    rw [List.forall_mem_cons] at hk
    rw [List.map_cons, List.nodup_cons] at hnodup
    rw [insertHashed]
    split
    · next hsame =>
      obtain rfl := (sameKey_iff_of_hasType hkey hk.1).1 hsame
      exact mem_replace_head fun e he heq => hnodup.1 (heq ▸ List.mem_map_of_mem he)
    · next hother =>
      rw [sameKey_iff_of_hasType hkey hk.1] at hother
      exact mem_keep_head hother (ih hk.2 hnodup.2)

theorem nodup_insertHashed (hkey : HasType k key) (hk : ∀ e ∈ m, HasType k e.1)
    (hnodup : (m.map Prod.fst).Nodup) : ((insertHashed key value m).map Prod.fst).Nodup := by
  induction m with
  | nil => simp [insertHashed]
  | cons x m ih =>
    rw [List.forall_mem_cons] at hk
    have hnodup' := hnodup
    rw [List.map_cons, List.nodup_cons] at hnodup'
    rw [insertHashed]
    split
    · exact hnodup
    · next hother =>
      rw [sameKey_iff_of_hasType hkey hk.1] at hother
      refine List.nodup_cons.2 ⟨fun hx => ?_, ih hk.2 hnodup'.2⟩
      obtain ⟨e, he, hkeys⟩ := List.mem_map.1 hx
      obtain rfl | ⟨he, -⟩ := (mem_insertHashed hkey hk.2 hnodup'.2).1 he
      · exact hother hkeys.symm
      · exact hnodup'.1 (hkeys ▸ List.mem_map_of_mem he)

/-- What is put into a map of typed keys leaves the keys typed. -/
theorem hasType_of_put {x : Value × Value} {m' : List (Value × Value)} (hx : HasType k x.1)
    (hk : ∀ e ∈ m, HasType k e.1) (hmem : ∀ e, e ∈ m' ↔ e = x ∨ e ∈ m ∧ e.1 ≠ x.1) :
    ∀ e ∈ m', HasType k e.1 := by
  intro e he
  obtain rfl | ⟨he, -⟩ := (hmem e).1 he
  · exact hx
  · exact hk e he

/-- The sorted map of a list has the last entries of the list, in the order of their keys. -/
theorem holdsLast_sortedMap (hk : ∀ e ∈ es, HasType k e.1) :
    HoldsLast es (sortedMap es) ∧ Ascending (sortedMap es) := by
  have hfold : ((∀ e ∈ sortedMap es, HasType k e.1) ∧ Ascending (sortedMap es)) ∧
      ∀ e, e ∈ sortedMap es ↔ IsLast e es := by
    refine foldl_put (P := fun m => (∀ e ∈ m, HasType k e.1) ∧ Ascending m)
      ⟨by simp, by simp [Ascending]⟩ ?_
    rintro m ⟨hm, hasc⟩ x hx
    have hmem : ∀ e, e ∈ insertSorted x.1 x.2 m ↔ e = x ∨ e ∈ m ∧ e.1 ≠ x.1 :=
      fun e => mem_insertSorted (hk x hx) hm hasc
    exact ⟨⟨hasType_of_put (hk x hx) hm hmem, ascending_insertSorted (hk x hx) hm hasc⟩, hmem⟩
  exact ⟨⟨hfold.1.2.nodup hfold.1.1, hfold.2⟩, hfold.1.2⟩

/-- The map without order of a list has the last entries of the list. -/
theorem holdsLast_hashedMap (hk : ∀ e ∈ es, HasType k e.1) : HoldsLast es (hashedMap es) := by
  have hfold : ((∀ e ∈ hashedMap es, HasType k e.1) ∧ ((hashedMap es).map Prod.fst).Nodup) ∧
      ∀ e, e ∈ hashedMap es ↔ IsLast e es := by
    refine foldl_put (P := fun m => (∀ e ∈ m, HasType k e.1) ∧ (m.map Prod.fst).Nodup)
      ⟨by simp, by simp⟩ ?_
    rintro m ⟨hm, hnodup⟩ x hx
    have hmem : ∀ e, e ∈ insertHashed x.1 x.2 m ↔ e = x ∨ e ∈ m ∧ e.1 ≠ x.1 :=
      fun e => mem_insertHashed (hk x hx) hm hnodup
    exact ⟨⟨hasType_of_put (hk x hx) hm hmem, nodup_insertHashed (hk x hx) hm hnodup⟩, hmem⟩
  exact ⟨hfold.1.2, hfold.2⟩

/-- A list is the sorted map of itself exactly if its keys ascend. -/
theorem sortedMap_eq_self_iff (hk : ∀ e ∈ es, HasType k e.1) :
    sortedMap es = es ↔ Ascending es := by
  refine ⟨fun h => ?_, sortedMap_eq_self hk⟩
  rw [← h]
  exact (holdsLast_sortedMap hk).2

end Put

end Value

end CodecForge.Wire
