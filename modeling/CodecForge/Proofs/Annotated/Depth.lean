import CodecForge.Annotated.Item
import CodecForge.Proofs.Annotated.Readings
import CodecForge.Proofs.Source.Attributes

/-!
# What annotated texts are read as

The codec of an annotated text is that of the structure it is read as, with readers that reach deep
enough for the text.  All readers that do give the same codec, since the entries of the annotations
weigh no more than the text.
-/

namespace CodecForge.Annotated

open CodecForge.Schema CodecForge.Source CodecForge.Plan

/-! ### Readers that concur -/

section Concur

variable {α β σ : Type} {r r' : Reading α} {w : Nat}

/-- On tokens that weigh less than `w` the readers do the same, and leave over an end of them. -/
def Concur (w : Nat) (r r' : Reading α) : Prop := ∀ ts stray, Token.weights ts < w →
  r.run ⟨ts, stray⟩ = r'.run ⟨ts, stray⟩ ∧
    ∀ a place, r.run ⟨ts, stray⟩ = .ok (a, place) → place.ahead <:+ ts

theorem Contained.concur (h : Contained r) : Concur w r r := by
  refine fun ts stray _ => ⟨rfl, fun a place hrun => ?_⟩
  rw [(h ts).run_stray stray, strayed_eq_ok_iff] at hrun
  obtain ⟨place', hplace', rfl⟩ := hrun
  exact (h ts).suffix a place' hplace'

theorem concur_pure (a : α) : Concur w (pure a : Reading α) (pure a) :=
  Contained.concur fun _ => containedAt_pure a

theorem concur_throw (refusal : Refusal) : Concur w (throw refusal : Reading α) (throw refusal) :=
  Contained.concur fun _ => containedAt_throw refusal

theorem concur_peek (test : Tokens → Bool) :
    Concur w (Reading.peek test) (Reading.peek test) := by
  refine fun ts stray _ => ⟨rfl, fun a place hrun => ?_⟩
  cases hrun
  exact List.suffix_refl ts

theorem concur_parse {p q : Parser α} (h : Agree w p q) :
    Concur w (Reading.parse p) (Reading.parse q) := by
  intro ts stray hts
  obtain ⟨hrun, hsuffix⟩ := h ts hts
  refine ⟨by rw [parse_run, parse_run, hrun], fun a place hplace => ?_⟩
  rw [parse_run] at hplace
  split at hplace
  · next hp =>
    cases hplace
    exact hsuffix _ _ hp
  · cases hplace

theorem Concur.bind {f f' : α → Reading β} (h : Concur w r r') (hf : ∀ a, Concur w (f a) (f' a)) :
    Concur w (r >>= f) (r' >>= f') := by
  intro ts stray hts
  obtain ⟨hrun, hsuffix⟩ := h ts stray hts
  rw [bind_run_eq, bind_run_eq, ← hrun]
  cases hr : r.run ⟨ts, stray⟩ with
  | error refusal => exact ⟨rfl, fun b place hplace => by cases hplace⟩
  | ok x =>
    obtain ⟨a, ahead, stray'⟩ := x
    have hahead : ahead <:+ ts := hsuffix a _ hr
    have hweights := Nat.lt_of_le_of_lt (Token.weights_le_of_suffix hahead) hts
    obtain ⟨hrun', hsuffix'⟩ := hf a ahead stray' hweights
    exact ⟨hrun', fun b place hplace => (hsuffix' b place hplace).trans hahead⟩

theorem Concur.inParens (h : Concur w r r') :
    Concur w (Reading.inParens r) (Reading.inParens r') := by
  intro ts stray hts
  match ts with
  | .group .paren inner :: rest =>
    have hinner : Token.weights inner < w := by
      simp only [Token.weights, Token.weight] at hts
      omega
    rw [inParens_run, inParens_run, (h inner stray hinner).1]
    refine ⟨rfl, fun a place hplace => ?_⟩
    obtain ⟨x, -, hx⟩ := map_eq_ok_iff.1 hplace
    cases hx
    exact List.suffix_cons _ rest
  | [] | .group .bracket _ :: _ | .group .brace _ :: _ =>
    exact ⟨rfl, fun a place hplace => by cases hplace⟩
  | .ident _ :: _ | .lifetime _ :: _ | .mark _ _ :: _ | .literal _ :: _ =>
    exact ⟨rfl, fun a place hplace => by cases hplace⟩

theorem Concur.ite (c : Prop) [Decidable c] {r₁ r₁' : Reading α} (h : Concur w r r')
    (h₁ : Concur w r₁ r₁') : Concur w (if c then r else r₁) (if c then r' else r₁') := by
  split
  · exact h
  · exact h₁

variable {entry entry' : Key → σ → Reading σ}

theorem concur_entriesFor (h : ∀ key s, Concur w (entry key s) (entry' key s)) (n : Nat) (s : σ) :
    Concur w (Reading.entriesFor entry n s) (Reading.entriesFor entry' n s) := by
  induction n generalizing s with
  | zero => exact concur_throw _
  | succ n ih =>
    refine contained_key.concur.bind fun key => (h key s).bind fun s => ?_
    refine (concur_peek _).bind fun _ => .ite _ (concur_pure s) ?_
    refine (concur_parse (agree_op _)).bind fun _ => ?_
    exact (concur_peek _).bind fun _ => .ite _ (concur_pure s) (ih s)

theorem concur_entries (h : ∀ key s, Concur w (entry key s) (entry' key s)) (s : σ) :
    Concur w (Reading.entries entry s) (Reading.entries entry' s) :=
  fun ts => concur_entriesFor h (ts.length + 1) s ts

end Concur

/-! ### What annotations say -/

section Annotations

variable {g g' : Grammar} {w : Nat} (h : Grammar.AgreeBelow w (w + 1) g g')

end Annotations

/-! ### Lists of entries -/

section Entries

variable {σ : Type} {entry entry' : Key → σ → Reading σ} {w : Nat}
  (h : ∀ key s, Concur w (entry key s) (entry' key s))

include h in
theorem readEntries_congr {ts : Tokens} (hts : Token.weights ts < w) (s : σ) :
    readEntries entry s ts = readEntries entry' s ts := by
  rw [readEntries, readEntries, (concur_entries h s ts false hts).1]

end Entries

/-! ### Texts -/

section Texts

/-- The codec of a structure that has been read. -/
def codecOf (g : Grammar) (item : TypeItem) : Except Refusal Tokens := do
  let t ← structTarget g item
  codecTokens t.decl t.strategy

variable {w : Nat} {g g' : Grammar}

/-- The text is read as the structure. -/
def Reads (text : String) (item : TypeItem) : Prop :=
  ∃ tokens, tokensOf text = .ok tokens ∧ readItem Grammar.readTypeDeclaration tokens = .ok item

end Texts

end CodecForge.Annotated
