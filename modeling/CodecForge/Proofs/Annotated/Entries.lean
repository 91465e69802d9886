import CodecForge.Proofs.Annotated.Readings

/-!
# Lists of entries

A list of entries is read as its entries are, one after the other, if each of them has an end of its
own.  So it makes no difference how a list is parted, but for what is left over in brackets: that is
looked for when the list ends.
-/

namespace CodecForge.Annotated

open CodecForge.Schema CodecForge.Source

variable {σ : Type} {entry : Key → σ → Reading σ}

/-- The tokens are the entries with commas between them, with blanks or without.  A comma may stand
behind the last entry. -/
inductive Lists : List Tokens → Tokens → Prop
  | nil : Lists [] []
  | last (glued : Bool) (e : Tokens) : Lists [e] (Token.spacedLast glued e)
  | cons (glued glued' : Bool) (e : Tokens) {es : List Tokens} {ts : Tokens} (h : Lists es ts) :
      Lists (e :: es) (Token.spacedLast glued e ++ .mark ',' glued' :: ts)

/-- None of the tokens is a comma. -/
def CommaFree (ts : Tokens) : Prop := ∀ glued, Token.mark ',' glued ∉ ts

/-- Reads one entry. -/
def readEntry (entry : Key → σ → Reading σ) (s : σ) : Reading σ := do entry (← Reading.key) s

/-- The state after one more entry, which has to be all of the tokens, and whether something was
left over in brackets so far. -/
def addEntry (entry : Key → σ → Reading σ) (x : σ × Bool) (e : Tokens) :
    Except Refusal (σ × Bool) := do
  let (s, place) ← (readEntry entry x.1).run ⟨e, false⟩
  if place.ahead.isEmpty then return (s, x.2 || place.stray) else throw .malformed

theorem CommaFree.beginsOp {ts rest : Tokens} (h : CommaFree ts) (hrest : rest <:+ ts) :
    beginsOp "," rest = false := by
  cases rest with
  | nil => rfl
  | cons t rest =>
    have ht : t ∈ ts := hrest.subset List.mem_cons_self
    cases t with
    | mark c glued =>
      have hc : ',' ≠ c := fun hc => h glued (hc ▸ ht)
      exact beq_eq_false_iff_ne.2 hc
    | _ => rfl

theorem Lists.length_le {es : List Tokens} {ts : Tokens} (h : Lists es ts) :
    es.length ≤ ts.length + 1 := by
  induction h with
  | nil => exact Nat.zero_le _
  | last glued e => exact Nat.succ_le_succ (Nat.zero_le _)
  | cons glued glued' e h ih =>
    rw [List.length_cons, List.length_append, List.length_cons]
    omega

/-- The state after all entries; nothing may be left over. -/
def closing (x : σ × Bool) : Except Refusal σ := if x.2 then throw .malformed else return x.1

/-- Some brackets in the entry hold more than is read of them. -/
def Overfull (entry : Key → σ → Reading σ) (e : Tokens) : Prop :=
  ∃ s s', addEntry entry (s, false) e = .ok (s', true)

/-- How the outcomes of two lists of entries, read one after the other or as one, may differ: where
an entry of the first list is overfull, the two lists are malformed, and the one list is refused as
the second of the two, whose tokens are `ts`, would have been. -/
def Regrouped {α : Type} (entry : Key → σ → Reading σ) (as : List Tokens) (ts : Tokens)
    (parted joined : Except Refusal α) : Prop :=
  parted = joined ∨ (∃ e ∈ as, Overfull entry e) ∧ parted = .error .malformed ∧
    ∃ s refusal, readEntries entry s ts = .error refusal ∧ joined = .error refusal

section Regrouped

variable {α β : Type} {as bs : List Tokens} {ts us both : Tokens}
  {parted joined : Except Refusal α}

theorem Regrouped.bind (h : Regrouped entry as us parted joined) (f : α → Except Refusal β) :
    Regrouped entry as us (parted >>= f) (joined >>= f) := by
  obtain rfl | ⟨hoverfull, rfl, s, refusal, hs, rfl⟩ := h
  · exact .inl rfl
  · exact .inr ⟨hoverfull, rfl, s, refusal, hs, rfl⟩

theorem Regrouped.eq (h : Regrouped entry as us parted joined)
    (has : ∀ e ∈ as, ¬ Overfull entry e) : parted = joined := by
  obtain heq | ⟨⟨e, he, hoverfull⟩, -⟩ := h
  · exact heq
  · exact absurd hoverfull (has e he)

end Regrouped

end CodecForge.Annotated
