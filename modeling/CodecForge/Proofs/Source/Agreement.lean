import CodecForge.Proofs.Source.Boundaries
import CodecForge.Proofs.Source.Weights

/-!
# Readers that agree

Two readers agree below a weight if they do the same on all tokens that weigh less, where what they
leave over is the end of what they are given.  What is read behind a token weighs less than what is
read with it, and so does what is read in brackets.
-/

namespace CodecForge.Source

open CodecForge.Source.Parser

variable {α β : Type} {p q p' q' : Parser α} {w : Nat}

/-- On the given tokens the readers do the same, and what they leave over is an end of `whole`. -/
structure AgreeAt (p q : Parser α) (ts whole : Tokens) : Prop where
  run_eq : p.run ts = q.run ts
  suffix : ∀ a rest, p.run ts = some (a, rest) → rest <:+ whole

/-- The readers agree on tokens that weigh less than `w`. -/
def Agree (w : Nat) (p q : Parser α) : Prop := ∀ ts, Token.weights ts < w → AgreeAt p q ts ts

/-- The readers agree on tokens that weigh less than `w`, and what they read takes a token. -/
structure AgreeTaking (w : Nat) (p q : Parser α) : Prop where
  agree : Agree w p q
  takes : ∀ ts a rest, Token.weights ts < w → p.run ts = some (a, rest) → rest.length < ts.length

theorem Agree.mono {v : Nat} (h : Agree w p q) (hv : v ≤ w) : Agree v p q :=
  fun ts hts => h ts (Nat.lt_of_lt_of_le hts hv)

theorem Agree.lower (h : Agree (w + 1) p q) : Agree w p q := h.mono (Nat.le_succ w)

/-! ### Readers of one grammar -/

theorem Carries.agree (h : Carries p p) : Agree w p p :=
  fun ts _ => ⟨rfl, fun a rest hrun => (h ts a rest hrun).1⟩

theorem Advances.agree (h : Advances p p) : AgreeTaking w p p :=
  ⟨h.carries.agree, fun ts a rest _ hrun => h.takes ts a rest hrun⟩

theorem agree_pure (a : α) : Agree w (pure a : Parser α) (pure a) := (carries_pure a).agree

theorem agree_failure : Agree w (failure : Parser α) failure := carries_failure.agree

theorem agree_liftM (o : Option α) : Agree w (liftM o : Parser α) (liftM o) :=
  (carries_liftM o).agree

theorem agree_require (c : Bool) : Agree w (require c) (require c) := (Carries.require c).agree

theorem agree_op (s : String) : Agree w (op s) (op s) := (carries_op s).agree

theorem agree_sign {s : String} (hs : 0 < s.length) : AgreeTaking w (op s) (op s) :=
  (advances_op hs).agree

theorem agree_token : AgreeTaking w token token where
  agree ts _ := by
    refine ⟨rfl, fun a rest hrun => ?_⟩
    obtain ⟨t, rfl, -⟩ := readsOne_token.run_eq_some hrun
    exact List.suffix_cons t rest
  takes ts a rest _ hrun := by
    obtain ⟨t, rfl, -⟩ := readsOne_token.run_eq_some hrun
    exact Nat.lt_succ_self _

theorem agree_word (s : String) : AgreeTaking w (word s) (word s) := (advances_word s).agree

theorem agree_anyWord : AgreeTaking w anyWord anyWord := advances_anyWord.agree

theorem agree_ident : AgreeTaking w ident ident := advances_ident.agree

theorem agree_lifetime : AgreeTaking w lifetime lifetime := advances_lifetime.agree

theorem agree_anyGroup : AgreeTaking w anyGroup anyGroup := advances_anyGroup.agree

theorem agree_literal : Agree w literal literal := carries_literal.agree

theorem agree_peek (test : Tokens → Bool) : Agree w (peek test) (peek test) := by
  intro ts _
  refine ⟨rfl, fun b rest hrun => ?_⟩
  cases hrun
  exact List.suffix_refl ts

theorem agree_peekAfter (n : Nat) (test : Tokens → Bool) :
    Agree w (peekAfter n test) (peekAfter n test) := agree_peek fun ts => test (ts.drop n)

/-! ### One reader behind the other -/

variable {ts whole : Tokens}

theorem AgreeAt.bind {f f' : α → Parser β} (h : AgreeAt p q ts ts)
    (hf : ∀ a rest, p.run ts = some (a, rest) → rest <:+ ts → AgreeAt (f a) (f' a) rest whole) :
    AgreeAt (p >>= f) (q >>= f') ts whole where
  run_eq := by
    rw [StateT.run_bind, StateT.run_bind, ← h.run_eq]
    cases hp : p.run ts with
    | none => rfl
    | some x => exact (hf x.1 x.2 hp (h.suffix x.1 x.2 hp)).run_eq
  suffix b rest hrun := by
    obtain ⟨a, between, hp, hrun⟩ := bind_run_eq_some_iff.1 hrun
    exact (hf a between hp (h.suffix a between hp)).suffix b rest hrun

/-- Behind what has been read, less is left. -/
theorem Agree.behind {rest : Tokens} (h : Agree w p q) (hts : Token.weights ts < w)
    (hrest : rest <:+ ts) : AgreeAt p q rest ts := by
  have hweights := Nat.lt_of_le_of_lt (Token.weights_le_of_suffix hrest) hts
  exact ⟨(h rest hweights).run_eq, fun a rest' hrun =>
    ((h rest hweights).suffix a rest' hrun).trans hrest⟩

theorem Agree.bind {f f' : α → Parser β} (h : Agree w p q) (hf : ∀ a, Agree w (f a) (f' a)) :
    Agree w (p >>= f) (q >>= f') :=
  fun ts hts => (h ts hts).bind fun a _ _ hrest => (hf a).behind hts hrest

theorem AgreeTaking.weights_lt (h : AgreeTaking w p q) {ts rest : Tokens} {a : α}
    (hts : Token.weights ts < w) (hrun : p.run ts = some (a, rest)) :
    Token.weights rest < Token.weights ts :=
  Token.weights_lt_of_suffix ((h.agree ts hts).suffix a rest hrun) (h.takes ts a rest hts hrun)

/-- Behind a token, the readers need not agree on as much. -/
theorem AgreeTaking.bind {f f' : α → Parser β} (h : AgreeTaking (w + 1) p q)
    (hf : ∀ a, Agree w (f a) (f' a)) : AgreeTaking (w + 1) (p >>= f) (q >>= f') := by
  have hbehind {ts rest : Tokens} {a : α} (hts : Token.weights ts < w + 1)
      (hrun : p.run ts = some (a, rest)) : AgreeAt (f a) (f' a) rest rest := by
    have := h.weights_lt hts hrun
    exact hf a rest (by omega)
  refine ⟨fun ts hts => (h.agree ts hts).bind fun a rest hrun hrest => ?_, ?_⟩
  · have hagree := hbehind hts hrun
    exact ⟨hagree.run_eq, fun b rest' hrun => (hagree.suffix b rest' hrun).trans hrest⟩
  · intro ts b rest hts hrun
    obtain ⟨a, between, hp, hrun⟩ := bind_run_eq_some_iff.1 hrun
    have hle := ((hbehind hts hp).suffix b rest hrun).length_le
    exact Nat.lt_of_le_of_lt hle (h.takes ts a between hts hp)

theorem Agree.bindTaking {f f' : α → Parser β} (h : Agree w p q)
    (hf : ∀ a, AgreeTaking w (f a) (f' a)) : AgreeTaking w (p >>= f) (q >>= f') where
  agree := h.bind fun a => (hf a).agree
  takes ts b rest hts hrun := by
    obtain ⟨a, between, hp, hrun⟩ := bind_run_eq_some_iff.1 hrun
    have hsuffix := (h ts hts).suffix a between hp
    have hbetween := Nat.lt_of_le_of_lt (Token.weights_le_of_suffix hsuffix) hts
    exact Nat.lt_of_lt_of_le ((hf a).takes between b rest hbetween hrun) hsuffix.length_le

theorem AgreeAt.get {f f' : Tokens → Parser α} (h : AgreeAt (f ts) (f' ts) ts whole) :
    AgreeAt (get >>= f) (get >>= f') ts whole := ⟨h.run_eq, h.suffix⟩

theorem Agree.get {f f' : Tokens → Parser α} (h : ∀ ts, Agree w (f ts) (f' ts)) :
    Agree w (get >>= f) (get >>= f') := fun ts hts => .get (h ts ts hts)

/-! ### Choices -/

theorem AgreeAt.branch {test : Tokens → Bool} (h : AgreeAt p q ts whole)
    (h' : AgreeAt p' q' ts whole) :
    AgreeAt (peek test >>= fun b => if b = true then p else p')
      (peek test >>= fun b => if b = true then q else q') ts whole := by
  have hrun (p p' : Parser α) : (peek test >>= fun b => if b = true then p else p').run ts =
      (if test ts = true then p else p').run ts := rfl
  cases htest : test ts with
  | false =>
    refine ⟨?_, fun a rest => ?_⟩ <;> simp only [hrun, htest]
    · exact h'.run_eq
    · exact h'.suffix a rest
  | true =>
    refine ⟨?_, fun a rest => ?_⟩ <;> simp only [hrun, htest]
    · exact h.run_eq
    · exact h.suffix a rest

theorem Agree.ite (c : Prop) [Decidable c] (h : Agree w p q) (h' : Agree w p' q') :
    Agree w (if c then p else p') (if c then q else q') := by
  split
  · exact h
  · exact h'

theorem Agree.branch {test : Tokens → Bool} (h : Agree w p q) (h' : Agree w p' q') :
    Agree w (peek test >>= fun b => if b = true then p else p')
      (peek test >>= fun b => if b = true then q else q') :=
  (agree_peek test).bind fun b => .ite (b = true) h h'

theorem Agree.when {p q : Speller} {test : Tokens → Bool} (h : Agree w p q) :
    Agree w (when test p) (when test q) := h.branch (agree_pure [])

theorem agree_op? (s : String) : Agree w (op? s) (op? s) := (agree_op s).when

theorem agree_word? (s : String) : Agree w (word? s) (word? s) := (agree_word s).agree.when

/-! ### Sequences -/

theorem agree_seq_nil : Agree w (seq []) (seq []) := agree_pure []

theorem Agree.seq {p q : Speller} {ps qs : List Speller} (h : Agree w p q)
    (hs : Agree w (seq ps) (seq qs)) : Agree w (seq (p :: ps)) (seq (q :: qs)) :=
  h.bind fun _ => hs.bind fun _ => agree_pure _

theorem AgreeTaking.seq {p q : Speller} {ps qs : List Speller} (h : AgreeTaking (w + 1) p q)
    (hs : Agree w (seq ps) (seq qs)) : AgreeTaking (w + 1) (seq (p :: ps)) (seq (q :: qs)) :=
  h.bind fun _ => hs.bind fun _ => agree_pure _

theorem Agree.seqTaking {p q : Speller} {ps qs : List Speller} (h : Agree (w + 1) p q)
    (hs : AgreeTaking (w + 1) (Parser.seq ps) (Parser.seq qs)) :
    AgreeTaking (w + 1) (Parser.seq (p :: ps)) (Parser.seq (q :: qs)) :=
  h.bindTaking fun _ => hs.bind fun _ => agree_pure _

/-- A piece of syntax behind a mark. -/
theorem Agree.behindSign {p q : Speller} {s : String} (hs : 0 < s.length) (h : Agree w p q) :
    Agree (w + 1) (Parser.seq [op s, p]) (Parser.seq [op s, q]) :=
  ((agree_sign hs).seq (.seq h agree_seq_nil)).agree

/-- A piece of syntax behind a word. -/
theorem Agree.behindWord {p q : Speller} (s : String) (h : Agree w p q) :
    Agree (w + 1) (Parser.seq [word s, p]) (Parser.seq [word s, q]) :=
  ((agree_word s).seq (.seq h agree_seq_nil)).agree

theorem Agree.repeatFor {test : Tokens → Bool} (h : Agree w p q) (n : Nat) :
    Agree w (repeatFor test p n) (repeatFor test q n) := by
  induction n with
  | zero => exact agree_pure []
  | succ n ih => exact .branch (h.bind fun _ => ih.bind fun _ => agree_pure _) (agree_pure [])

theorem Agree.many {test : Tokens → Bool} (h : Agree w p q) :
    Agree w (many test p) (many test q) := .get fun _ => h.repeatFor _

theorem Agree.separatedFor {stop : Tokens → Bool} {sep : String} (h : Agree w p q) (n : Nat) :
    Agree w (separatedFor stop sep p n) (separatedFor stop sep q n) := by
  induction n with
  | zero => exact agree_failure
  | succ n ih =>
    refine .branch (agree_pure _) (h.bind fun _ => .branch (agree_pure _) ?_)
    exact (agree_op sep).bind fun _ => ih.bind fun _ => agree_pure _

theorem Agree.separated {stop : Tokens → Bool} {sep : String} (h : Agree w p q) :
    Agree w (separated stop sep p) (separated stop sep q) :=
  .get fun _ => (h.separatedFor _).bind fun _ => agree_pure _

theorem Agree.listed (h : Agree w p q) : Agree w (listed p) (listed q) := h.separated

theorem Agree.commaList {p q : Speller} (h : Agree w p q) : Agree w (commaList p) (commaList q) :=
  h.listed.bind fun _ => agree_pure _

/-! ### Groups -/

theorem Agree.all_eq (h : Agree w p q) {ts : Tokens} (hts : Token.weights ts < w) :
    all p ts = all q ts := by
  rw [all, all, (h ts hts).run_eq]

/-- What stands in brackets weighs less than the group. -/
theorem Agree.group (d : Delimiter) (h : Agree w p q) :
    AgreeTaking (w + 1) (group d p) (group d q) where
  agree ts hts := by
    refine ⟨?_, fun a rest hrun => ((advances_group_self d p).carries ts a rest hrun).1⟩
    cases ts with
    | nil => exact (readsOne_group d p).1.trans (readsOne_group d q).1.symm
    | cons t rest =>
      rw [(readsOne_group d p).2, (readsOne_group d q).2]
      cases t with
      | group d' inner =>
        have hinner : Token.weights inner < w := by
          simp only [Token.weights, Token.weight] at hts
          omega
        simp only [h.all_eq hinner]
      | _ => rfl
  takes ts a rest _ hrun := (advances_group_self d p).takes ts a rest hrun

theorem Agree.grouped (d : Delimiter) {p q : Speller} (h : Agree w p q) :
    AgreeTaking (w + 1) (grouped d p) (grouped d q) :=
  (h.group d).bind fun _ => agree_pure _

/-- What stands in brackets may be taken out and read later. -/
theorem Agree.bindInside (d : Delimiter) {f f' : Tokens → Parser β}
    (hf : ∀ inside, Token.weights inside < w → Agree (w + 1) (f inside) (f' inside)) :
    Agree (w + 1) (Parser.group d remainder >>= f) (Parser.group d remainder >>= f') := by
  refine fun ts hts => ((advances_group_self _ _).agree.agree ts hts).bind ?_
  intro inside rest hrun _
  obtain ⟨t, rfl, ht⟩ := (readsOne_group _ _).run_eq_some hrun
  cases t with
  | group d' inner =>
    simp only [] at ht
    split at ht
    · obtain rfl : inner = inside := (Prod.mk.inj (Option.some.inj (all_eq_some_iff.1 ht))).1
      have hts' := hts
      simp only [Token.weights, Token.weight] at hts'
      exact (hf inner (by omega)).behind hts (List.suffix_cons _ rest)
    · cases ht
  | _ => cases ht

end CodecForge.Source
