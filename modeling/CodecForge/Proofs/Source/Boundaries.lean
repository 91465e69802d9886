import CodecForge.Source.Grammar

/-!
# Reading up to a comma

No operator within a type has a comma in it, so a reader of types that has come to the end of its
text goes no further where a comma with more text behind it stands in place of the end.  The comma
may stand right behind the last token or after a blank.
-/

namespace CodecForge.Source

open CodecForge.Source.Parser

/-! ### Ends of texts -/

/-- The token with more text right behind it, or with a blank; only marks tell these apart. -/
def Token.spaced (glued : Bool) : Token → Token
  | .mark c _ => .mark c glued
  | t => t

/-- The tokens with more text right behind the last of them, or with a blank. -/
def Token.spacedLast (glued : Bool) : Tokens → Tokens
  | [] => []
  | [t] => [t.spaced glued]
  | t :: t' :: ts => t :: spacedLast glued (t' :: ts)

/-- What stands behind a text that ends: nothing, or a comma with more text, either right behind it
or after a blank. -/
structure Edge where
  glued : Bool
  tail : Tokens
  ends : tail = [] ∨ ∃ glued rest, tail = .mark ',' glued :: rest

/-- The tokens with the edge behind them. -/
def Edge.behind (e : Edge) (ts : Tokens) : Tokens := Token.spacedLast e.glued ts ++ e.tail

section Edge

variable (e : Edge)

theorem Token.length_spacedLast (glued : Bool) (ts : Tokens) :
    (spacedLast glued ts).length = ts.length := by
  fun_induction spacedLast glued ts with
  | case1 => rfl
  | case2 t => rfl
  | case3 t t' ts ih => exact congrArg (· + 1) ih

theorem Token.drop_spacedLast (glued : Bool) (n : Nat) (ts : Tokens) :
    (spacedLast glued ts).drop n = spacedLast glued (ts.drop n) := by
  induction n generalizing ts with
  | zero => rfl
  | succ n ih =>
    match ts with
    | [] => rfl
    | [t] => rw [spacedLast, List.drop_succ_cons, List.drop_succ_cons, List.drop_nil, spacedLast]
    | t :: t' :: ts => exact ih (t' :: ts)

theorem Edge.behind_nil : e.behind [] = e.tail := rfl

theorem Edge.behind_cons_cons (t t' : Token) (ts : Tokens) :
    e.behind (t :: t' :: ts) = t :: e.behind (t' :: ts) := rfl

theorem Edge.length_le (ts : Tokens) : ts.length ≤ (e.behind ts).length := by
  rw [Edge.behind, List.length_append, Token.length_spacedLast]
  exact Nat.le_add_right _ _

theorem Edge.drop_behind {n : Nat} {ts : Tokens} (hn : n ≤ ts.length) :
    (e.behind ts).drop n = e.behind (ts.drop n) := by
  have hlength : n ≤ (Token.spacedLast e.glued ts).length := by rwa [Token.length_spacedLast]
  rw [Edge.behind, List.drop_append_of_le_length hlength, Token.drop_spacedLast, Edge.behind]

/-- Only a mark has to do with what stands behind it. -/
theorem Edge.behind_cons {t : Token} (ht : ∀ c glued, t ≠ .mark c glued) (ts : Tokens) :
    e.behind (t :: ts) = t :: e.behind ts := by
  cases ts with
  | cons t' ts => rfl
  | nil =>
    cases t with
    | mark c glued => exact absurd rfl (ht c glued)
    | _ => rfl

/-- The end of a text is an edge that leaves the text as it is, and every end of the text too. -/
theorem exists_end (ts : Tokens) : ∃ e : Edge, ∀ rest, rest <:+ ts → e.behind rest = rest := by
  induction ts with
  | nil =>
    refine ⟨⟨false, [], .inl rfl⟩, fun rest h => ?_⟩
    obtain rfl := List.suffix_nil.1 h
    rfl
  | cons t ts ih =>
    cases ts with
    | nil =>
      have hspaced : ∃ glued, t.spaced glued = t := by
        cases t with
        | mark c glued => exact ⟨glued, rfl⟩
        | _ => exact ⟨false, rfl⟩
      obtain ⟨glued, hglued⟩ := hspaced
      refine ⟨⟨glued, [], .inl rfl⟩, fun rest h => ?_⟩
      obtain rfl | h := List.suffix_cons_iff.1 h
      · exact congrArg (· :: []) hglued
      · obtain rfl := List.suffix_nil.1 h
        rfl
    | cons t' ts =>
      obtain ⟨e, he⟩ := ih
      refine ⟨e, fun rest h => ?_⟩
      obtain rfl | h := List.suffix_cons_iff.1 h
      · rw [e.behind_cons_cons, he _ (List.suffix_refl _)]
      · exact he rest h

end Edge

/-! ### Tests of the tokens ahead -/

/-- The test does not tell an edge from the end of the text. -/
def Stable (test : Tokens → Bool) : Prop := ∀ ts (e : Edge), test (e.behind ts) = test ts

section Stable

variable {test test' : Tokens → Bool}

theorem Stable.and (h : Stable test) (h' : Stable test') : Stable fun ts => test ts && test' ts :=
  fun ts e => by simp only [h ts e, h' ts e]

theorem Stable.or (h : Stable test) (h' : Stable test') : Stable fun ts => test ts || test' ts :=
  fun ts e => by simp only [h ts e, h' ts e]

theorem Stable.not (h : Stable test) : Stable fun ts => !test ts :=
  fun ts e => by simp only [h ts e]

/-- Where `test` holds of no fewer than `n` tokens, a test of those behind is as stable as one of
those ahead. -/
theorem Stable.andAfter {n : Nat} (h : Stable test) (hn : ∀ ts, test ts = true → n ≤ ts.length)
    (h' : Stable test') : Stable fun ts => test ts && test' (ts.drop n) := by
  intro ts e
  simp only [h ts e]
  cases htest : test ts with
  | false => rfl
  | true => rw [e.drop_behind (hn ts htest), h' _ e]

theorem stable_beginsMarks {cs : List Char} (hcs : ',' ∉ cs) : Stable (beginsMarks cs) := by
  intro ts e
  induction cs generalizing ts with
  | nil => rfl
  | cons c cs ih =>
    rw [List.mem_cons, not_or] at hcs
    have hc : (c == ',') = false := beq_eq_false_iff_ne.2 (Ne.symm hcs.1)
    match ts with
    | [] =>
      rw [e.behind_nil]
      obtain hnil | ⟨glued, rest, hcomma⟩ := e.ends
      · rw [hnil]
      · rw [hcomma]
        cases cs <;> cases glued <;> simp [beginsMarks, hc]
    | [.mark c' glued] =>
      cases cs with
      | nil => rfl
      | cons c'' cs =>
        have htail : beginsMarks (c'' :: cs) e.tail = false :=
          (ih hcs.2 []).trans (by cases cs <;> rfl)
        have hbehind : e.behind [.mark c' glued] = .mark c' e.glued :: e.tail := rfl
        rw [hbehind]
        cases glued <;> cases e.glued <;> simp [beginsMarks, htail]
    | .mark c' glued :: t :: ts =>
      rw [e.behind_cons_cons]
      cases cs with
      | nil => rfl
      | cons c'' cs =>
        cases glued with
        | false => rfl
        | true => simp only [beginsMarks, ih hcs.2]
    | .ident _ :: ts | .lifetime _ :: ts | .literal _ :: ts | .group _ _ :: ts =>
      rw [e.behind_cons (by simp)]
      cases cs <;> rfl

theorem stable_beginsOp {s : String} (hs : ',' ∉ s.toList) : Stable (beginsOp s) :=
  stable_beginsMarks hs

/-- A test of the next token that fails for marks as it does at the end. -/
theorem stable_of_head (h : ∀ t rest rest', test (t :: rest) = test (t :: rest'))
    (hmark : ∀ c glued rest, test (.mark c glued :: rest) = test []) : Stable test := by
  intro ts e
  match ts with
  | [] =>
    rw [e.behind_nil]
    obtain hnil | ⟨glued, rest, hcomma⟩ := e.ends
    · rw [hnil]
    · rw [hcomma, hmark]
  | [.mark c glued] => exact (hmark c e.glued e.tail).trans (hmark c glued []).symm
  | .mark c glued :: t :: ts => exact h _ _ _
  | .ident _ :: ts | .lifetime _ :: ts | .literal _ :: ts | .group _ _ :: ts =>
    rw [e.behind_cons (by simp)]
    exact h _ _ _

theorem stable_beginsWord (w : String) : Stable (beginsWord w) :=
  stable_of_head (fun t _ _ => by cases t <;> rfl) fun _ _ _ => rfl

theorem stable_beginsIdent : Stable beginsIdent :=
  stable_of_head (fun t _ _ => by cases t <;> rfl) fun _ _ _ => rfl

theorem stable_beginsLifetime : Stable beginsLifetime :=
  stable_of_head (fun t _ _ => by cases t <;> rfl) fun _ _ _ => rfl

theorem beginsLiteral_mark {c : Char} {glued : Bool} {ts : Tokens}
    (h : beginsLiteral (.mark c glued :: ts) = true) :
    c = '-' ∧ ∃ text rest, ts = .literal text :: rest := by
  rw [beginsLiteral.eq_def] at h
  split at h
  · next heq => cases heq
  · next heq => cases heq
  · next heq =>
    cases heq
    exact ⟨rfl, _, _, rfl⟩
  · cases h

end Stable

/-! ### Readers -/

section Carries

variable {α β : Type} {p q : Parser α}

/-- Whatever `p` reads, `q` reads the same where an edge stands in place of the end of the text. -/
def Carries (p q : Parser α) : Prop := ∀ ts a rest, p.run ts = some (a, rest) →
  rest <:+ ts ∧ ∀ e : Edge, q.run (e.behind ts) = some (a, e.behind rest)

/-- What the reader reads takes a token. -/
def Takes (p : Parser α) : Prop := ∀ ts a rest, p.run ts = some (a, rest) → rest.length < ts.length

theorem carries_pure (a : α) : Carries (pure a) (pure a) := by
  intro ts a' rest h
  cases h
  exact ⟨List.suffix_refl ts, fun _ => rfl⟩

theorem carries_failure : Carries (failure : Parser α) q := by
  intro ts a rest h
  cases h

theorem carries_liftM (o : Option α) : Carries (liftM o : Parser α) (liftM o) := by
  cases o with
  | none => exact carries_failure
  | some a => exact carries_pure a

theorem bind_run_eq_some_iff {f : α → Parser β} {ts : Tokens} {b : β} {rest : Tokens} :
    (p >>= f).run ts = some (b, rest) ↔
      ∃ a between, p.run ts = some (a, between) ∧ (f a).run between = some (b, rest) := by
  simp only [StateT.run_bind, Option.bind_eq_bind, Option.bind_eq_some_iff, Prod.exists]

theorem bind_run_eq_none {f : α → Parser β} {ts : Tokens} (h : p.run ts = none) :
    (p >>= f).run ts = none := by
  rw [StateT.run_bind, h]
  rfl

theorem Carries.bind {f f' : α → Parser β} (h : Carries p q) (hf : ∀ a, Carries (f a) (f' a)) :
    Carries (p >>= f) (q >>= f') := by
  intro ts b rest hrun
  obtain ⟨a, between, hp, hf'⟩ := bind_run_eq_some_iff.1 hrun
  obtain ⟨hsuffix, hq⟩ := h ts a between hp
  obtain ⟨hsuffix', hq'⟩ := hf a between b rest hf'
  exact ⟨hsuffix'.trans hsuffix, fun e =>
    bind_run_eq_some_iff.2 ⟨a, e.behind between, hq e, hq' e⟩⟩

theorem carries_peek {test : Tokens → Bool} (h : Stable test) :
    Carries (peek test) (peek test) := by
  intro ts b rest hrun
  cases hrun
  refine ⟨List.suffix_refl ts, fun e => ?_⟩
  change some (test (e.behind ts), e.behind ts) = _
  rw [h ts e]

theorem Carries.ite {p' q' : Parser α} (c : Prop) [Decidable c] (h : Carries p q)
    (h' : Carries p' q') : Carries (if c then p else p') (if c then q else q') := by
  split
  · exact h
  · exact h'

theorem beginsMarks_behind {cs : List Char} {ts : Tokens} (h : beginsMarks cs ts = true) :
    cs.length ≤ ts.length ∧ ∀ e : Edge, beginsMarks cs (e.behind ts) = true := by
  fun_induction beginsMarks cs ts with
  | case1 c c' glued rest => exact ⟨by simp, fun e => by cases rest <;> exact h⟩
  | case2 c cs c' rest hne ih =>
    rw [Bool.and_eq_true] at h
    obtain ⟨hlength, hbehind⟩ := ih h.2
    refine ⟨Nat.succ_le_succ hlength, fun e => ?_⟩
    cases rest with
    | nil =>
      rw [List.length_eq_zero_iff.1 (Nat.le_zero.1 hlength)] at h
      cases h.2
    | cons t rest =>
      rw [e.behind_cons_cons, beginsMarks, Bool.and_eq_true]
      · exact ⟨h.1, hbehind e⟩
      · exact hne
  | case3 => cases h

theorem beginsOp_behind {s : String} {ts : Tokens} (h : beginsOp s ts = true) :
    s.length ≤ ts.length ∧ ∀ e : Edge, beginsOp s (e.behind ts) = true :=
  beginsMarks_behind h

theorem require_run (c : Bool) (ts : Tokens) :
    (require c).run ts = if c then some ((), ts) else none := by
  cases c <;> rfl

theorem op_run (s : String) (ts : Tokens) : (op s).run ts =
    if beginsOp s ts then some (Token.op s, ts.drop s.length) else none := by
  have hrun : (op s).run ts =
    ((require (beginsOp s ts)).run ts).bind fun x => some (Token.op s, x.2.drop s.length) := rfl
  rw [hrun, require_run]
  split <;> rfl

theorem carries_op (s : String) : Carries (op s) (op s) := by
  intro ts t rest hrun
  rw [op_run] at hrun
  split at hrun
  · next hs =>
    obtain ⟨rfl, rfl⟩ := Prod.mk.inj (Option.some.inj hrun)
    obtain ⟨hlength, hbehind⟩ := beginsOp_behind hs
    refine ⟨List.drop_suffix _ _, fun e => ?_⟩
    rw [op_run, if_pos (hbehind e), e.drop_behind hlength]
  · cases hrun

/-- What `p` reads takes a token, and `q` reads the same where an edge stands in place of the
end. -/
structure Advances (p q : Parser α) : Prop where
  carries : Carries p q
  takes : Takes p

theorem advances_op {s : String} (hs : 0 < s.length) : Advances (op s) (op s) where
  carries := carries_op s
  takes ts t rest hrun := by
    rw [op_run] at hrun
    split at hrun
    · next h =>
      obtain ⟨-, rfl⟩ := Prod.mk.inj (Option.some.inj hrun)
      have := (beginsOp_behind h).1
      rw [List.length_drop]
      omega
    · cases hrun

theorem Advances.bind {f f' : α → Parser β} (h : Advances p q) (hf : ∀ a, Carries (f a) (f' a)) :
    Advances (p >>= f) (q >>= f') where
  carries := h.carries.bind hf
  takes ts b rest hrun := by
    obtain ⟨a, between, hp, hf'⟩ := bind_run_eq_some_iff.1 hrun
    exact Nat.lt_of_le_of_lt (hf a between b rest hf').1.length_le (h.takes ts a between hp)

theorem Advances.ite {p' q' : Parser α} (c : Prop) [Decidable c] (h : Advances p q)
    (h' : Advances p' q') : Advances (if c then p else p') (if c then q else q') := by
  split
  · exact h
  · exact h'

/-- The reader makes what `f` makes of the next token. -/
def ReadsOne (p : Parser α) (f : Token → Option α) : Prop :=
  p.run [] = none ∧ ∀ t rest, p.run (t :: rest) = (f t).map (·, rest)

theorem ReadsOne.run_eq_some {f : Token → Option α} (h : ReadsOne p f) {ts : Tokens} {a : α}
    {rest : Tokens} (hrun : p.run ts = some (a, rest)) : ∃ t, ts = t :: rest ∧ f t = some a := by
  cases ts with
  | nil => cases h.1.symm.trans hrun
  | cons t ts =>
    rw [h.2, Option.map_eq_some_iff] at hrun
    obtain ⟨a', hf, ha⟩ := hrun
    obtain ⟨rfl, rfl⟩ := Prod.mk.inj ha
    exact ⟨t, rfl, hf⟩

theorem ReadsOne.advances {f f' : Token → Option α} (h : ReadsOne p f) (h' : ReadsOne q f')
    (hmark : ∀ c glued, f (.mark c glued) = none) (hf : ∀ t a, f t = some a → f' t = some a) :
    Advances p q where
  carries ts a rest hrun := by
    obtain ⟨t, rfl, ha⟩ := h.run_eq_some hrun
    refine ⟨List.suffix_cons t rest, fun e => ?_⟩
    have ht (c : Char) (glued : Bool) : t ≠ .mark c glued := by
      rintro rfl
      cases (hmark c glued).symm.trans ha
    rw [e.behind_cons ht, h'.2, hf t a ha]
    rfl
  takes ts a rest hrun := by
    obtain ⟨t, rfl, -⟩ := h.run_eq_some hrun
    exact Nat.lt_succ_self _

theorem ReadsOne.advances_self {f : Token → Option α} (h : ReadsOne p f)
    (hmark : ∀ c glued, f (.mark c glued) = none) : Advances p p :=
  h.advances h hmark fun _ _ => id

theorem readsOne_anyWord : ReadsOne anyWord fun t => match t with
    | .ident name => some ⟨name⟩
    | _ => none :=
  ⟨rfl, fun t _ => by cases t <;> rfl⟩

theorem readsOne_word (w : String) : ReadsOne (word w) fun t => match t with
    | .ident name => if name == w then some [.ident w] else none
    | _ => none := by
  refine ⟨rfl, fun t rest => ?_⟩
  have hrun : (word w).run (t :: rest) =
    ((require (beginsWord w (t :: rest))).run (t :: rest)).bind fun x =>
      some ([.ident w], x.2.drop 1) := rfl
  rw [hrun, require_run]
  cases t with
  | ident name =>
    by_cases h : name = w <;> simp [beginsWord, h]
  | _ => rfl

theorem readsOne_ident : ReadsOne ident fun t => match t with
    | .ident name => if isIdentWord name then some ⟨name⟩ else none
    | _ => none := by
  refine ⟨rfl, fun t rest => ?_⟩
  have hrun : ident.run (t :: rest) =
    ((require (beginsIdent (t :: rest))).run (t :: rest)).bind fun x => anyWord.run x.2 := rfl
  rw [hrun, require_run]
  cases t with
  | ident name =>
    by_cases h : isIdentWord name <;> simp [beginsIdent, h]
    rfl
  | _ => rfl

theorem readsOne_lifetime : ReadsOne lifetime fun t => match t with
    | .lifetime name => some name
    | _ => none :=
  ⟨rfl, fun t _ => by cases t <;> rfl⟩

theorem readsOne_token : ReadsOne token some := ⟨rfl, fun _ _ => rfl⟩

theorem readsOne_anyGroup : ReadsOne anyGroup fun t => match t with
    | .group d inner => some [.group d inner]
    | _ => none :=
  ⟨rfl, fun t _ => by cases t <;> rfl⟩

theorem readsOne_group (d : Delimiter) (p : Parser α) : ReadsOne (group d p) fun t => match t with
    | .group d' inner => if d == d' then all p inner else none
    | _ => none := by
  refine ⟨rfl, fun t rest => ?_⟩
  cases t with
  | group d' inner =>
    simp only [group, StateT.run_bind, StateT.run_get, require_run, Option.pure_def,
      Option.bind_eq_bind, Option.bind_some]
    cases d == d' with
    | false => rfl
    | true => cases all p inner <;> rfl
  | _ => rfl

theorem advances_anyWord : Advances anyWord anyWord :=
  readsOne_anyWord.advances_self fun _ _ => rfl

theorem advances_word (w : String) : Advances (word w) (word w) :=
  (readsOne_word w).advances_self fun _ _ => rfl

theorem advances_ident : Advances ident ident :=
  readsOne_ident.advances_self fun _ _ => rfl

theorem advances_lifetime : Advances lifetime lifetime :=
  readsOne_lifetime.advances_self fun _ _ => rfl

theorem advances_anyGroup : Advances anyGroup anyGroup :=
  readsOne_anyGroup.advances_self fun _ _ => rfl

/-- Only the brackets of a group stand in the text around it. -/
theorem advances_group_self (d : Delimiter) (p : Parser α) : Advances (group d p) (group d p) :=
  (readsOne_group d p).advances_self fun _ _ => rfl

theorem advances_grouped_self (d : Delimiter) (p : Speller) :
    Advances (grouped d p) (grouped d p) :=
  (advances_group_self d p).bind fun _ => carries_pure _

theorem all_eq_some_iff {ts : Tokens} {a : α} : all p ts = some a ↔ p.run ts = some (a, []) := by
  rw [all]
  split
  · next a' h => simp [h]
  · next h =>
    simp only [false_iff, reduceCtorEq]
    exact fun hrun => h a hrun

theorem Carries.group (d : Delimiter) (h : Carries p q) : Advances (group d p) (group d q) := by
  refine (readsOne_group d p).advances (readsOne_group d q) (fun _ _ => rfl) fun t a ht => ?_
  cases t with
  | group d' inner =>
    simp only [] at ht ⊢
    split at ht
    · next hd =>
      obtain ⟨-, hq⟩ := h inner a [] (all_eq_some_iff.1 ht)
      obtain ⟨e, he⟩ := exists_end inner
      have hrun := hq e
      rw [he inner (List.suffix_refl _), he [] List.nil_suffix] at hrun
      rw [if_pos hd, all_eq_some_iff]
      exact hrun
    · cases ht
  | _ => cases ht

theorem Carries.require (c : Bool) : Carries (require c) (require c) :=
  .ite _ (carries_pure ()) carries_failure

/-- Where the test tells an edge from the end of the text, its outcome at the end is `b`, and `p`
reads nothing there. -/
def Settled (test : Tokens → Bool) (b : Bool) (p : Parser α) : Prop :=
  ∀ ts (e : Edge), test (e.behind ts) = test ts ∨ test ts = b ∧ p.run ts = none

theorem Stable.settled {test : Tokens → Bool} (h : Stable test) (b : Bool) (p : Parser α) :
    Settled test b p := fun ts e => .inl (h ts e)

theorem Settled.eq_of_ne {test : Tokens → Bool} {b : Bool} (h : Settled test b p) {ts : Tokens}
    (hb : test ts ≠ b) (e : Edge) : test (e.behind ts) = test ts :=
  (h ts e).resolve_right fun h => hb h.1

theorem Settled.eq_of_run {test : Tokens → Bool} {b : Bool} (h : Settled test b p)
    {ts : Tokens} {x : α × Tokens} (hx : p.run ts = some x) (e : Edge) :
    test (e.behind ts) = test ts :=
  (h ts e).resolve_right fun h => by cases h.2.symm.trans hx

theorem peek_run {test : Tokens → Bool} {ts : Tokens} {b : Bool} (h : test ts = b) :
    (peek test).run ts = some (b, ts) := by
  subst h
  rfl

/-- A choice between two readers, by a test that is settled where the second is chosen. -/
theorem Carries.choose {p' q' : Parser α} {test : Tokens → Bool} (htest : Settled test false p')
    (h : Carries p q) (h' : Carries p' q') :
    Carries (peek test >>= fun b => if b = true then p else p')
      (peek test >>= fun b => if b = true then q else q') := by
  intro ts a rest hrun
  obtain ⟨b, between, hpeek, hrun⟩ := bind_run_eq_some_iff.1 hrun
  cases hpeek
  cases ht : test ts with
  | false =>
    rw [ht] at hrun
    obtain ⟨hsuffix, hq⟩ := h' ts a rest hrun
    refine ⟨hsuffix, fun e => ?_⟩
    have hb := (htest.eq_of_run hrun e).trans ht
    exact bind_run_eq_some_iff.2 ⟨_, _, peek_run hb, hq e⟩
  | true =>
    rw [ht] at hrun
    obtain ⟨hsuffix, hq⟩ := h ts a rest hrun
    refine ⟨hsuffix, fun e => ?_⟩
    have hb := (htest.eq_of_ne (by rw [ht]; decide) e).trans ht
    exact bind_run_eq_some_iff.2 ⟨_, _, peek_run hb, hq e⟩

theorem Carries.branch {p' q' : Parser α} {test : Tokens → Bool} (htest : Stable test)
    (h : Carries p q) (h' : Carries p' q') :
    Carries (peek test >>= fun b => if b = true then p else p')
      (peek test >>= fun b => if b = true then q else q') :=
  .choose (htest.settled _ _) h h'

/-- A test of the tokens ahead that holds of no fewer than `n`, with a test of those behind. -/
theorem Carries.peekAfter {p' q' : Parser α} {test test' : Tokens → Bool} {n : Nat}
    {c : Bool → Bool} (htest : Stable test) (hn : ∀ ts, test ts = true → n ≤ ts.length)
    (htest' : Stable test') (h : Carries p q) (h' : Carries p' q') :
    Carries
      (peek test >>= fun b => peekAfter n test' >>= fun b' => if (b && c b') = true then p else p')
      (peek test >>= fun b => peekAfter n test' >>= fun b' =>
        if (b && c b') = true then q else q') := by
  have hc : Stable fun ts => c (test' ts) := fun ts e => congrArg c (htest' ts e)
  exact (carries_peek (htest.andAfter hn hc)).bind fun b => .ite (b = true) h h'

theorem Carries.when {p q : Speller} {test : Tokens → Bool} (h : Carries p q)
    (htest : Stable test) : Carries (when test p) (when test q) :=
  (carries_peek htest).bind fun _ => h.ite _ (carries_pure [])

theorem carries_op? (s : String) (hs : ',' ∉ s.toList) : Carries (op? s) (op? s) :=
  (carries_op s).when (stable_beginsOp hs)

theorem literal_run_eq_some_iff {ts a rest : Tokens} : literal.run ts = some (a, rest) ↔
    (∃ glued text, isNumber text = true ∧ ts = .mark '-' glued :: .literal text :: rest ∧
      a = Token.op "-" ++ [.literal text]) ∨
    ∃ t, (∀ c glued, t ≠ .mark c glued) ∧ beginsLiteral [t] = true ∧ ts = t :: rest ∧ a = [t] := by
  constructor
  · intro hrun
    obtain ⟨b, between, hpeek, hrun⟩ := bind_run_eq_some_iff.1 hrun
    cases hpeek
    cases hts : beginsLiteral ts with
    | false =>
      rw [hts] at hrun
      cases hrun
    | true =>
      rw [hts] at hrun
      match ts with
      | [] => cases hts
      | .mark c glued :: ts =>
        obtain ⟨rfl, text, rest', rfl⟩ := beginsLiteral_mark hts
        cases hrun
        exact .inl ⟨glued, text, hts, rfl, rfl⟩
      | .ident name :: ts =>
        cases hrun
        exact .inr ⟨_, by simp, hts, rfl, rfl⟩
      | .literal text :: ts =>
        cases hrun
        exact .inr ⟨_, by simp, hts, rfl, rfl⟩
      | .lifetime _ :: _ | .group _ _ :: _ => cases hts
  · rintro (⟨glued, text, htext, rfl, rfl⟩ | ⟨t, ht, hliteral, rfl, rfl⟩)
    · have hts : beginsLiteral (.mark '-' glued :: .literal text :: rest) = true := htext
      exact bind_run_eq_some_iff.2 ⟨_, _, peek_run hts, rfl⟩
    · cases t with
      | ident name =>
        have hts : beginsLiteral (.ident name :: rest) = true := hliteral
        exact bind_run_eq_some_iff.2 ⟨_, _, peek_run hts, rfl⟩
      | literal text => rfl
      | mark c glued => exact absurd rfl (ht c glued)
      | lifetime | group => cases hliteral

/-- A negative number begins with a mark, but it does not end with one. -/
theorem carries_literal : Carries literal literal := by
  intro ts a rest hrun
  obtain ⟨glued, text, htext, rfl, rfl⟩ | ⟨t, ht, hliteral, rfl, rfl⟩ :=
    literal_run_eq_some_iff.1 hrun
  · refine ⟨(List.suffix_cons _ _).trans (List.suffix_cons _ _), fun e => ?_⟩
    refine literal_run_eq_some_iff.2 (.inl ⟨glued, text, htext, ?_, rfl⟩)
    rw [e.behind_cons_cons, e.behind_cons (by simp)]
  · refine ⟨List.suffix_cons _ _, fun e => ?_⟩
    exact literal_run_eq_some_iff.2 (.inr ⟨t, ht, hliteral, e.behind_cons ht rest, rfl⟩)

theorem carries_seq_nil : Carries (seq []) (seq []) := carries_pure []

theorem Carries.seq_cons {p q : Speller} {ps qs : List Speller} (h : Carries p q)
    (hs : Carries (seq ps) (seq qs)) : Carries (seq (p :: ps)) (seq (q :: qs)) :=
  h.bind fun _ => hs.bind fun _ => carries_pure _

theorem Advances.seq_cons {p q : Speller} {ps qs : List Speller} (h : Advances p q)
    (hs : Carries (seq ps) (seq qs)) : Advances (seq (p :: ps)) (seq (q :: qs)) :=
  h.bind fun _ => hs.bind fun _ => carries_pure _

theorem Advances.repeatFor {test : Tokens → Bool} (htest : Settled test true p) (h : Advances p q)
    {n m : Nat} {ts : Tokens} {as : List α} {rest : Tokens} (hn : ts.length < n)
    (hm : ts.length < m) (hrun : (repeatFor test p n).run ts = some (as, rest)) :
    rest <:+ ts ∧ ∀ e : Edge,
      (repeatFor test q m).run (e.behind ts) = some (as, e.behind rest) := by
  induction n generalizing m ts as with
  | zero => cases hn
  | succ n ih =>
    obtain ⟨m, rfl⟩ : ∃ m', m = m' + 1 := ⟨m - 1, by omega⟩
    obtain ⟨b, between, hpeek, hrun⟩ := bind_run_eq_some_iff.1 hrun
    cases hpeek
    cases ht : test ts with
    | false =>
      rw [ht] at hrun
      cases hrun
      refine ⟨List.suffix_refl _, fun e => ?_⟩
      have hb := (htest.eq_of_ne (by rw [ht]; decide) e).trans ht
      exact bind_run_eq_some_iff.2 ⟨_, _, peek_run hb, rfl⟩
    | true =>
      rw [ht] at hrun
      obtain ⟨a, after, ha, hrun⟩ := bind_run_eq_some_iff.1 hrun
      obtain ⟨as', rest', has, hrun⟩ := bind_run_eq_some_iff.1 hrun
      cases hrun
      have hlength := h.takes ts a after ha
      obtain ⟨hsuffix, hq⟩ := h.carries ts a after ha
      obtain ⟨hsuffix', hq'⟩ := ih (m := m) (by omega) (by omega) has
      refine ⟨hsuffix'.trans hsuffix, fun e => ?_⟩
      have hb := (htest.eq_of_run ha e).trans ht
      exact bind_run_eq_some_iff.2 ⟨_, _, peek_run hb, bind_run_eq_some_iff.2 ⟨a, _, hq e,
        bind_run_eq_some_iff.2 ⟨as', _, hq' e, rfl⟩⟩⟩

/-- Parts that take tokens are all read, since the tokens ahead are no fewer than the parts. -/
theorem Advances.many {test : Tokens → Bool} (htest : Settled test true p) (h : Advances p q) :
    Carries (many test p) (many test q) := by
  intro ts as rest hrun
  have hn := Nat.lt_succ_self ts.length
  refine ⟨(h.repeatFor htest hn hn hrun).1, fun e => ?_⟩
  have hm : ts.length < (e.behind ts).length + 1 := Nat.lt_succ_of_le (e.length_le ts)
  exact (h.repeatFor htest hn hm hrun).2 e

theorem Carries.separatedFor {stop : Tokens → Bool} {sep : String} (hstop : Stable stop)
    (h : Carries p q) {n m : Nat} (hnm : n ≤ m) :
    Carries (separatedFor stop sep p n) (separatedFor stop sep q m) := by
  induction n generalizing m with
  | zero => exact carries_failure
  | succ n ih =>
    obtain ⟨m, rfl⟩ : ∃ m', m = m' + 1 := ⟨m - 1, by omega⟩
    refine (carries_peek hstop).bind fun b => .ite _ (carries_pure _) (h.bind fun a => ?_)
    refine (carries_peek hstop).bind fun b => .ite _ (carries_pure _) ?_
    exact (carries_op sep).bind fun _ => (ih (by omega)).bind fun _ => carries_pure _

/-- A reader that is told how many tokens there are ahead may be told of more. -/
theorem Carries.ofLength {f f' : Nat → Parser α} (h : ∀ n m, n ≤ m → Carries (f n) (f' m)) :
    Carries (do f (← get).length) (do f' (← get).length) := by
  intro ts a rest hrun
  refine ⟨(h ts.length ts.length (Nat.le_refl _) ts a rest hrun).1, fun e => ?_⟩
  exact (h ts.length (e.behind ts).length (e.length_le ts) ts a rest hrun).2 e

theorem Carries.separated {stop : Tokens → Bool} {sep : String} (hstop : Stable stop)
    (h : Carries p q) : Carries (separated stop sep p) (separated stop sep q) := by
  have hfor : ∀ n m, n ≤ m →
      Carries
        (Parser.separatedFor stop sep p (n + 1) >>= fun x => pure (x.1, x.2 && !x.1.isEmpty))
        (Parser.separatedFor stop sep q (m + 1) >>= fun x => pure (x.1, x.2 && !x.1.isEmpty)) :=
    fun n m hnm => (h.separatedFor hstop (Nat.succ_le_succ hnm)).bind fun _ => carries_pure _
  exact .ofLength hfor

end Carries

/-! ### Lists -/

section Lists

variable {α : Type} {p : Parser α} {stop : Tokens → Bool} {sep : String} {ts rest : Tokens}
  {x : List α × Bool}

end Lists

/-! ### Refusals -/

section Refuses

variable {α β : Type} {p : Parser α}

/-- Where the reader refuses at the end of the text, it refuses where an edge stands there. -/
def Refuses (p : Parser α) : Prop := ∀ ts (e : Edge), p.run ts = none → p.run (e.behind ts) = none

theorem refuses_pure (a : α) : Refuses (pure a) := by
  intro ts e h
  cases h

theorem Refuses.bind {f : α → Parser β} (h : Refuses p) (hp : Carries p p)
    (hf : ∀ a, Refuses (f a)) : Refuses (p >>= f) := by
  intro ts e hrun
  cases hts : p.run ts with
  | none => exact bind_run_eq_none (h ts e hts)
  | some x =>
    rw [StateT.run_bind, hts, Option.bind_eq_bind, Option.bind_some] at hrun
    rw [StateT.run_bind, (hp ts x.1 x.2 hts).2 e, Option.bind_eq_bind, Option.bind_some]
    exact hf x.1 x.2 e hrun

theorem ReadsOne.refuses {f : Token → Option α} (h : ReadsOne p f)
    (hmark : ∀ c glued, f (.mark c glued) = none) : Refuses p := by
  have hrefused (c : Char) (glued : Bool) (rest : Tokens) :
      p.run (.mark c glued :: rest) = none := by
    rw [h.2, hmark]
    rfl
  intro ts e hrun
  match ts with
  | [] =>
    rw [e.behind_nil]
    obtain hnil | ⟨glued, rest, hcomma⟩ := e.ends
    · rw [hnil, h.1]
    · rw [hcomma, hrefused]
  | [.mark c glued] => exact hrefused c e.glued e.tail
  | .mark c glued :: t :: ts => exact hrefused c glued _
  | .ident _ :: ts | .lifetime _ :: ts | .literal _ :: ts | .group _ _ :: ts =>
    rw [h.2, Option.map_eq_none_iff] at hrun
    rw [e.behind_cons (by simp), h.2, hrun]
    rfl

theorem refuses_anyWord : Refuses anyWord := readsOne_anyWord.refuses fun _ _ => rfl

theorem refuses_op {s : String} (hs : ',' ∉ s.toList) : Refuses (op s) := by
  intro ts e hrun
  rw [op_run] at hrun
  split at hrun
  · cases hrun
  · next h => rw [op_run, stable_beginsOp hs ts e, if_neg h]

theorem refuses_peek (test : Tokens → Bool) : Refuses (peek test) := by
  intro ts e h
  cases h

theorem Refuses.when {p : Speller} {test : Tokens → Bool} (h : Refuses p) (htest : Stable test) :
    Refuses (when test p) := by
  refine (refuses_peek test).bind (carries_peek htest) fun b => ?_
  cases b with
  | false => exact refuses_pure []
  | true => exact h

theorem Refuses.repeatFor {test : Tokens → Bool} (htest : Stable test) (h : Refuses p)
    (hp : Advances p p) {n m : Nat} {ts : Tokens} (hn : ts.length < n) (hm : ts.length < m)
    (e : Edge) (hrun : (repeatFor test p n).run ts = none) :
    (repeatFor test p m).run (e.behind ts) = none := by
  induction n generalizing m ts with
  | zero => cases hn
  | succ n ih =>
    obtain ⟨m, rfl⟩ : ∃ m', m = m' + 1 := ⟨m - 1, by omega⟩
    rw [Parser.repeatFor, StateT.run_bind, peek_run rfl, Option.bind_eq_bind,
      Option.bind_some] at hrun
    rw [Parser.repeatFor, StateT.run_bind, peek_run rfl, Option.bind_eq_bind, Option.bind_some,
      htest ts e]
    cases ht : test ts with
    | false =>
      rw [ht] at hrun
      cases hrun
    | true =>
      rw [ht] at hrun
      cases ha : p.run ts with
      | none => exact bind_run_eq_none (h ts e ha)
      | some x =>
        have hlength := hp.takes ts x.1 x.2 ha
        have hafter := (hp.carries ts x.1 x.2 ha).2 e
        rw [if_pos rfl, StateT.run_bind, ha, Option.bind_eq_bind, Option.bind_some] at hrun
        rw [if_pos rfl, StateT.run_bind, hafter, Option.bind_eq_bind, Option.bind_some]
        cases hrest : (Parser.repeatFor test p n).run x.2 with
        | none => exact bind_run_eq_none (ih (by omega) (by omega) hrest)
        | some y =>
          rw [StateT.run_bind, hrest] at hrun
          cases hrun

theorem Refuses.many {test : Tokens → Bool} (h : Refuses p) (htest : Stable test)
    (hp : Advances p p) : Refuses (many test p) := by
  intro ts e hrun
  have hm : ts.length < (e.behind ts).length + 1 := Nat.lt_succ_of_le (e.length_le ts)
  exact h.repeatFor htest hp (Nat.lt_succ_self ts.length) hm e hrun

end Refuses

end CodecForge.Source
