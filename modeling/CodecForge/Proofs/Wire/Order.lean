import Mathlib.Data.List.Basic
import CodecForge.Proofs.Wire.Typing

/-!
# The order of keys, and maps from their entries

On the values of one type `Value.compare` tells two values apart, it gives the opposite answer for
the opposite question, and it is transitive.  A map is rebuilt from its own entries, put in one
after the other, with all of them in the same order.
-/

namespace CodecForge.Wire

namespace Value

/-! ### Comparing two values of one type -/

/-- The order decides between the two, and equal values alone are in neither order. -/
structure Compares (a b : Value) : Prop where
  swap : compare b a = (compare a b).swap
  eq_of_compare : compare a b = .eq → a = b

theorem compares_of_lawful {α : Type} [Ord α] [Std.OrientedOrd α] [Std.LawfulEqOrd α]
    {f : α → Value} (hf : ∀ x y, compare (f x) (f y) = Ord.compare x y) (x y : α) :
    Compares (f x) (f y) where
  swap := by rw [hf, hf, Std.OrientedOrd.eq_swap]
  eq_of_compare h := by
    rw [hf] at h
    rw [Std.LawfulEqOrd.eq_of_compare h]

theorem compares_cons {a b : Value} {as bs : List Value} (hhead : Compares a b)
    (htail : Compares (list as) (list bs)) : Compares (list (a :: as)) (list (b :: bs)) := by
  have hswap := htail.swap
  have heq := htail.eq_of_compare
  simp only [compare, list.injEq] at hswap heq
  constructor
  · simp only [compare, compareAll]
    rw [hhead.swap, hswap, Ordering.swap_then]
  · intro h
    simp only [compare, compareAll, Ordering.then_eq_eq] at h
    rw [hhead.eq_of_compare h.1, heq h.2]

/-- Sequences compare as their elements do. -/
theorem compares_list {as bs : List Value} (h : ∀ a ∈ as, ∀ b ∈ bs, Compares a b) :
    Compares (list as) (list bs) := by
  induction as generalizing bs with
  | nil => cases bs <;> constructor <;> simp [compare, compareAll]
  | cons a as ih =>
    cases bs with
    | nil => constructor <;> simp [compare, compareAll]
    | cons b bs =>
      refine compares_cons (h a List.mem_cons_self b List.mem_cons_self) (ih ?_)
      exact fun a' ha b' hb => h a' (List.mem_cons_of_mem _ ha) b' (List.mem_cons_of_mem _ hb)

/-- The entry as a pair of its key and its value. -/
def pair (e : Value × Value) : Value := list [e.1, e.2]

theorem pair_injective : pair.Injective := by
  rintro ⟨k, v⟩ ⟨k', v'⟩ h
  simpa [pair] using h

/-- Maps compare as the lists of their entries. -/
theorem compare_map (as bs : List (Value × Value)) :
    compare (map as) (map bs) = compare (list (as.map pair)) (list (bs.map pair)) := by
  simp only [compare]
  induction as generalizing bs with
  | nil => cases bs <;> simp [compareEntries, compareAll]
  | cons a as ih =>
    obtain ⟨k, v⟩ := a
    rcases bs with _ | ⟨⟨k', v'⟩, bs⟩
    · simp [compareEntries, compareAll]
    · simp [compareEntries, compareAll, compare, pair, ih]

/-- Maps compare as their entries do, each by its key and then by its value. -/
theorem compares_map {as bs : List (Value × Value)} (hk : ∀ a ∈ as, ∀ b ∈ bs, Compares a.1 b.1)
    (hv : ∀ a ∈ as, ∀ b ∈ bs, Compares a.2 b.2) : Compares (map as) (map bs) := by
  have hend : Compares (list []) (list []) := compares_list (by simp)
  have hlists : Compares (list (as.map pair)) (list (bs.map pair)) := by
    refine compares_list (List.forall_mem_map.2 fun a ha => List.forall_mem_map.2 fun b hb => ?_)
    exact compares_cons (hk a ha b hb) (compares_cons (hv a ha b hb) hend)
  constructor
  · rw [compare_map, compare_map, hlists.swap]
  · intro h
    rw [compare_map] at h
    rw [pair_injective.list_map (list.inj (hlists.eq_of_compare h))]

/-- Two values of one type compare. -/
theorem compares_of_hasType {t : WireType} {a b : Value} (ha : HasType t a) (hb : HasType t b) :
    Compares a b := by
  induction ha generalizing b with
  | bool x =>
    obtain ⟨y⟩ := hb
    cases x <;> cases y <;> constructor <;> simp [compare] <;> rfl
  | integer =>
    cases hb
    exact compares_of_lawful (f := integer) (fun x y => by simp [compare]) _ _
  | float =>
    cases hb
    exact compares_of_lawful (f := float) (fun x y => by simp [compare]) _ _
  | text =>
    cases hb
    exact compares_of_lawful (f := text) (fun x y => by simp [compare]) _ _
  | empty =>
    cases hb
    constructor <;> simp [compare]
  | list _ ih =>
    cases hb with
    | list hbs => exact compares_list fun a ha b hb => ih a ha (hbs b hb)
  | array _ _ ih =>
    cases hb with
    | array _ hbs => exact compares_list fun a ha b hb => ih a ha (hbs b hb)
  | absent =>
    cases hb <;> constructor <;> simp [compare]
  | present _ ih =>
    cases hb with
    | absent => constructor <;> simp [compare]
    | present hb =>
      constructor
      · simpa only [compare] using (ih hb).swap
      · intro h
        simp only [compare] at h
        rw [(ih hb).eq_of_compare h]
  | boxed _ ih =>
    cases hb with
    | boxed hb => exact ih hb
  | noParts =>
    cases hb
    constructor <;> simp [compare, compareAll]
  | part _ _ ih ihs =>
    cases hb with
    | part hb hbs => exact compares_cons (ih hb) (ihs hbs)
  | orderedMap _ _ _ ihk ih =>
    cases hb with
    | orderedMap hk ht _ =>
      exact compares_map (fun a ha b hb => ihk a ha (hk b hb)) fun a ha b hb => ih a ha (ht b hb)
  | hashMap _ _ _ ihk ih =>
    cases hb with
    | hashMap hk ht _ =>
      exact compares_map (fun a ha b hb => ihk a ha (hk b hb)) fun a ha b hb => ih a ha (ht b hb)

/-! ### Comparing three values of one type -/

/-- If `a` is in front of `b` and `b` in front of `c`, then `a` is in front of `c`. -/
def Carries (a b c : Value) : Prop := compare a b = .lt → compare b c = .lt → compare a c = .lt

theorem then_eq_lt_trans {x y z x' y' z' : Ordering} (hlt : x = .lt → y = .lt → z = .lt)
    (hleft : x = .eq → z = y) (hright : y = .eq → z = x)
    (hrest : x' = .lt → y' = .lt → z' = .lt) (hx : x.then x' = .lt) (hy : y.then y' = .lt) :
    z.then z' = .lt := by
  rw [Ordering.then_eq_lt] at hx hy ⊢
  rcases hx with hx | ⟨hx, hx'⟩
  · rcases hy with hy | ⟨hy, -⟩
    · exact .inl (hlt hx hy)
    · exact .inl ((hright hy).trans hx)
  · rcases hy with hy | ⟨hy, hy'⟩
    · exact .inl ((hleft hx).trans hy)
    · exact .inr ⟨(hleft hx).trans hy, hrest hx' hy'⟩

theorem carries_of_trans {α : Type} [Ord α] [Std.TransOrd α] {f : α → Value}
    (hf : ∀ x y, compare (f x) (f y) = Ord.compare x y) (x y z : α) :
    Carries (f x) (f y) (f z) := by
  unfold Carries
  rw [hf, hf, hf]
  exact Std.TransCmp.lt_trans

/-- The first difference of sequences stays in front of later ones. -/
theorem carries_cons {a b c : Value} {as bs cs : List Value} (hab : Compares a b)
    (hbc : Compares b c) (hhead : Carries a b c)
    (htail : Carries (list as) (list bs) (list cs)) :
    Carries (list (a :: as)) (list (b :: bs)) (list (c :: cs)) := by
  simp only [Carries, compare, compareAll] at hhead htail ⊢
  refine then_eq_lt_trans hhead (fun h => ?_) (fun h => ?_) htail
  · rw [hab.eq_of_compare h]
  · rw [hbc.eq_of_compare h]

theorem carries_list {t : WireType} {as bs cs : List Value} (has : ∀ a ∈ as, HasType t a)
    (hbs : ∀ b ∈ bs, HasType t b) (hcs : ∀ c ∈ cs, HasType t c)
    (h : ∀ a ∈ as, ∀ {b c : Value}, HasType t b → HasType t c → Carries a b c) :
    Carries (list as) (list bs) (list cs) := by
  induction as generalizing bs cs with
  | nil => cases bs <;> cases cs <;> simp [Carries, compare, compareAll]
  | cons a as ih =>
    rcases bs with _ | ⟨b, bs⟩
    · simp [Carries, compare, compareAll]
    rcases cs with _ | ⟨c, cs⟩
    · simp [Carries, compare, compareAll]
    rw [List.forall_mem_cons] at has hbs hcs
    exact carries_cons (compares_of_hasType has.1 hbs.1) (compares_of_hasType hbs.1 hcs.1)
      (h a List.mem_cons_self hbs.1 hcs.1)
      (ih has.2 hbs.2 hcs.2 fun a' ha' => h a' (List.mem_cons_of_mem _ ha'))

theorem hasType_pair_iff {k t : WireType} {e : Value × Value} :
    HasType (.tuple [k, t]) (pair e) ↔ HasType k e.1 ∧ HasType t e.2 := by
  refine ⟨fun h => ?_, fun ⟨hk, ht⟩ => .part hk (.part ht .noParts)⟩
  cases h with
  | part hk hrest =>
    cases hrest with
    | part ht _ => exact ⟨hk, ht⟩

theorem exists_eq_pair {k t : WireType} {v : Value} (hv : HasType (.tuple [k, t]) v) :
    ∃ e, v = pair e := by
  cases hv with
  | part _ hrest =>
    cases hrest with
    | part _ hend =>
      cases hend
      exact ⟨(_, _), rfl⟩

theorem hasType_pairs {k t : WireType} {es : List (Value × Value)} (hk : ∀ e ∈ es, HasType k e.1)
    (ht : ∀ e ∈ es, HasType t e.2) : ∀ v ∈ es.map pair, HasType (.tuple [k, t]) v :=
  List.forall_mem_map.2 fun e he => hasType_pair_iff.2 ⟨hk e he, ht e he⟩

theorem carries_map {k t : WireType} {as bs cs : List (Value × Value)}
    (has : ∀ v ∈ as.map pair, HasType (.tuple [k, t]) v)
    (hbs : ∀ v ∈ bs.map pair, HasType (.tuple [k, t]) v)
    (hcs : ∀ v ∈ cs.map pair, HasType (.tuple [k, t]) v)
    (hk : ∀ a ∈ as, ∀ {b c : Value}, HasType k b → HasType k c → Carries a.1 b c)
    (ht : ∀ a ∈ as, ∀ {b c : Value}, HasType t b → HasType t c → Carries a.2 b c) :
    Carries (map as) (map bs) (map cs) := by
  have hlists : Carries (list (as.map pair)) (list (bs.map pair)) (list (cs.map pair)) := by
    refine carries_list has hbs hcs (List.forall_mem_map.2 fun a ha => ?_)
    intro b c hb hc
    obtain ⟨hka, hta⟩ := hasType_pair_iff.1 (has (pair a) (List.mem_map_of_mem ha))
    obtain ⟨b, rfl⟩ := exists_eq_pair hb
    obtain ⟨c, rfl⟩ := exists_eq_pair hc
    obtain ⟨hkb, htb⟩ := hasType_pair_iff.1 hb
    obtain ⟨hkc, htc⟩ := hasType_pair_iff.1 hc
    have hend : Carries (list []) (list []) (list []) := by simp [Carries, compare, compareAll]
    exact carries_cons (compares_of_hasType hka hkb) (compares_of_hasType hkb hkc)
      (hk a ha hkb hkc) (carries_cons (compares_of_hasType hta htb) (compares_of_hasType htb htc)
        (ht a ha htb htc) hend)
  simpa only [Carries, compare_map] using hlists

/-- The order of the values of one type is transitive. -/
theorem carries_of_hasType {t : WireType} {a b c : Value} (ha : HasType t a) (hb : HasType t b)
    (hc : HasType t c) : Carries a b c := by
  induction ha generalizing b c with
  | bool x =>
    cases hb
    cases hc
    simpa only [Carries, compare] using Std.TransCmp.lt_trans
  | integer =>
    cases hb
    cases hc
    exact carries_of_trans (f := integer) (fun x y => by simp [compare]) _ _ _
  | float =>
    cases hb
    cases hc
    exact carries_of_trans (f := float) (fun x y => by simp [compare]) _ _ _
  | text =>
    cases hb
    cases hc
    exact carries_of_trans (f := text) (fun x y => by simp [compare]) _ _ _
  | empty =>
    cases hb
    simp [Carries, compare]
  | list has ih =>
    cases hb with
    | list hbs =>
    cases hc with
    | list hcs => exact carries_list has hbs hcs ih
  | array _ has ih =>
    cases hb with
    | array _ hbs =>
    cases hc with
    | array _ hcs => exact carries_list has hbs hcs ih
  | absent =>
    cases hb <;> cases hc <;> simp [Carries, compare]
  | present _ ih =>
    cases hb with
    | absent => simp [Carries, compare]
    | present hb =>
      cases hc with
      | absent => simp [Carries, compare]
      | present hc => simpa only [Carries, compare] using ih hb hc
  | boxed _ ih =>
    cases hb with
    | boxed hb =>
    cases hc with
    | boxed hc => exact ih hb hc
  | noParts =>
    cases hb
    simp [Carries, compare, compareAll]
  | part ha _ ih ihs =>
    cases hb with
    | part hb hbs =>
    cases hc with
    | part hc hcs =>
    exact carries_cons (compares_of_hasType ha hb) (compares_of_hasType hb hc) (ih hb hc)
      (ihs hbs hcs)
  | orderedMap hk ht _ ihk ih =>
    cases hb with
    | orderedMap hk' ht' _ =>
    cases hc with
    | orderedMap hk'' ht'' _ =>
    exact carries_map (hasType_pairs hk ht) (hasType_pairs hk' ht') (hasType_pairs hk'' ht'') ihk ih
  | hashMap hk ht _ ihk ih =>
    cases hb with
    | hashMap hk' ht' _ =>
    cases hc with
    | hashMap hk'' ht'' _ =>
    exact carries_map (hasType_pairs hk ht) (hasType_pairs hk' ht') (hasType_pairs hk'' ht'') ihk ih

/-! ### Maps from their entries -/

/-- Entries that are each put behind all earlier ones come in the order in which they are put. -/
theorem foldl_eq_append {ε : Type} {R : ε → ε → Prop} {put : List ε → ε → List ε}
    (hput : ∀ m e, (∀ x ∈ m, R x e) → put m e = m ++ [e]) (l m : List ε)
    (h : (m ++ l).Pairwise R) : l.foldl put m = m ++ l := by
  induction l generalizing m with
  | nil => simp
  | cons e l ih =>
    have hlast : ∀ x ∈ m, R x e :=
      fun x hx => (List.pairwise_append.1 h).2.2 x hx e List.mem_cons_self
    rw [List.foldl_cons, hput m e hlast, ih (m ++ [e]) (by simpa using h)]
    simp

theorem insertSorted_eq_append {key value : Value} {m : List (Value × Value)}
    (h : ∀ e ∈ m, compare key e.1 = .gt) : insertSorted key value m = m ++ [(key, value)] := by
  induction m with
  | nil => rfl
  | cons e m ih =>
    rw [insertSorted, h e List.mem_cons_self]
    simp only [List.cons_append, List.cons.injEq, true_and]
    exact ih fun e' he' => h e' (List.mem_cons_of_mem _ he')

theorem insertHashed_eq_append {key value : Value} {m : List (Value × Value)}
    (h : ∀ e ∈ m, sameKey key e.1 = false) : insertHashed key value m = m ++ [(key, value)] := by
  induction m with
  | nil => rfl
  | cons e m ih =>
    have hhead := h e List.mem_cons_self
    rw [insertHashed, if_neg (by simp [hhead]), ih fun e' he' => h e' (List.mem_cons_of_mem _ he')]
    rfl

theorem sortedMap_eq_self {k : WireType} {entries : List (Value × Value)}
    (hk : ∀ e ∈ entries, HasType k e.1)
    (h : (entries.map Prod.fst).Pairwise fun a b => compare a b = .lt) :
    sortedMap entries = entries := by
  have hgt : entries.Pairwise fun a b => compare b.1 a.1 = .gt := by
    refine (List.pairwise_map.1 h).imp_of_mem fun {a b} ha hb hlt => ?_
    rw [(compares_of_hasType (hk a ha) (hk b hb)).swap, hlt]
    rfl
  exact foldl_eq_append (fun m e he => insertSorted_eq_append he) entries [] hgt

theorem hashedMap_eq_self {k : WireType} {entries : List (Value × Value)}
    (hk : ∀ e ∈ entries, HasType k e.1) (h : (entries.map Prod.fst).Nodup) :
    hashedMap entries = entries := by
  have hne : entries.Pairwise fun a b => sameKey b.1 a.1 = false := by
    refine (List.pairwise_map.1 h).imp_of_mem fun {a b} ha hb hab => ?_
    rw [sameKey, beq_eq_false_iff_ne]
    exact fun heq => hab ((compares_of_hasType (hk b hb) (hk a ha)).eq_of_compare heq).symm
  exact foldl_eq_append (fun m e he => insertHashed_eq_append he) entries [] hne

end Value

end CodecForge.Wire
