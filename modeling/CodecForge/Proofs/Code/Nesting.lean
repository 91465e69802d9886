import CodecForge.Code.Spelling
import CodecForge.Proofs.Source.Weights

/-!
# The block that nests a type

The code of a codec holds the implementation that makes its type a part of others exactly where the
unit of the codec calls for it.  That implementation is the only one with braces that begin with an
encoder: all other braces begin otherwise, and those of a path are not large enough.
-/

namespace CodecForge.Source.Token

/-! ### Groups in token sequences -/

variable {ts us : Tokens} {t : Token}

theorem group_notMem_ofMarks (d : Delimiter) (inner : Tokens) (cs : List Char) :
    group d inner ∉ ofMarks cs := by
  induction cs with
  | nil => simp [ofMarks]
  | cons c cs ih => cases cs <;> simp_all [ofMarks]

/-- Words have no groups among them. -/
theorem group_notMem_words (d : Delimiter) (inner : Tokens) (line : String) :
    group d inner ∉ words line := by
  simp only [words, List.mem_flatMap, not_exists, not_and]
  intro w _
  rw [ofWord.eq_def]
  split
  · simp
  · simp
  · split
    · simp
    · split
      · simp
      · exact group_notMem_ofMarks d inner _

@[simp] theorem braces_notMem_words (inner : Tokens) (line : String) : braces inner ∉ words line :=
  group_notMem_words .brace inner line

@[simp] theorem braces_inj {inner inner' : Tokens} :
    braces inner = braces inner' ↔ inner = inner' := by
  simp [braces]

@[simp] theorem braces_ne_ident (inner : Tokens) (i : Ident) : braces inner ≠ i.token :=
  fun h => nomatch h

end CodecForge.Source.Token

namespace CodecForge.Code

open CodecForge.Source CodecForge.Plan

/-! ### What braces begin with -/

/-- The second token is the word that names the encoder. -/
def opensEncoder (ts : Tokens) : Bool := beginsWord "encode" (ts.drop 1)

theorem opensEncoder_append {ts : Tokens} (h : 2 ≤ ts.length) (us : Tokens) :
    opensEncoder (ts ++ us) = opensEncoder ts := by
  match ts, h with
  | _ :: t :: ts, _ => cases t <;> rfl

namespace Frame

variable {fr : Frame} {inner : Tokens}

theorem braces_notMem_structHead (traits : String) :
    Token.braces inner ∉ fr.structHead traits := by
  simp only [structHead, derives, attr, List.mem_append, Token.braces_notMem_words]
  cases fr.visibility <;>
    simp [Visibility.tokens, Token.braces, Token.brackets, Token.parens, Ident.token]

theorem braces_mem_implBlock_iff {inside : Tokens} :
    Token.braces inner ∈ fr.implBlock inside ↔ inner = inside := by
  simp only [implBlock, List.mem_append, Token.braces_notMem_words]
  simp [Token.braces, Ident.token]

/-- Slots are separated from their types, and no slot is named by two words. -/
theorem opensEncoder_slotFields (slots : List Slot) :
    opensEncoder (slots.flatMap fr.slotField) = false := by
  cases slots with
  | nil => rfl
  | cons s slots =>
    have hcolon : Token.words ":" = [.mark ':' false] := rfl
    rw [List.flatMap_cons, slotField, hcolon]
    rfl

/-- The braces in the definition of a codec hold its slots or its own functions. -/
theorem opensEncoder_of_mem_stateTokens {state : CodecState}
    (h : Token.braces inner ∈ fr.stateTokens state) : opensEncoder inner = false := by
  cases state with
  | stateless =>
    simp only [stateTokens, statelessTokens, List.mem_append, braces_notMem_structHead,
      Token.braces_notMem_words, braces_mem_implBlock_iff, false_or] at h
    rw [h, List.append_assoc, List.append_assoc, opensEncoder_append (by decide)]
    decide
  | offsets slots =>
    simp only [stateTokens, offsetsTokens, List.mem_append, List.mem_cons, List.not_mem_nil,
      braces_notMem_structHead, Token.braces_notMem_words, Token.braces_inj, Token.braces_ne_ident,
      braces_mem_implBlock_iff, false_or, or_false] at h
    rcases h with (rfl | rfl) | rfl
    · exact opensEncoder_slotFields slots
    · simp only [List.append_assoc]
      rw [opensEncoder_append (by decide)]
      decide
    · decide
  | registry =>
    simp only [stateTokens, registryTokens, List.mem_append, List.mem_cons, List.not_mem_nil,
      braces_notMem_structHead, braces_mem_implBlock_iff, Token.braces_inj, false_or, or_false] at h
    rcases h with rfl | rfl
    · simp only [List.append_assoc]
      rw [opensEncoder_append (by decide)]
      decide
    · simp only [List.append_assoc]
      rw [opensEncoder_append (by decide)]
      decide

/-- The braces of the implementation that nests a type begin with the encoder, and the paths of
the runtime library are within them. -/
theorem exists_mem_nestingTokens (fr : Frame) :
    ∃ inner, Token.braces inner ∈ fr.nestingTokens ∧ opensEncoder inner = true ∧
      Token.weights fr.runtime.tokens ≤ Token.weights inner := by
  refine ⟨_, List.mem_append_right _ List.mem_cons_self, ?_, ?_⟩
  · simp only [List.append_assoc]
    rw [opensEncoder_append (by decide)]
    decide
  · simp only [Token.weights_append, encodeResult, rt, inRuntime]
    omega

/-- A codec holds the implementation that nests its type exactly if its unit calls for it. -/
theorem nestingTokens_isInfix_iff {u : CodecUnit} :
    fr.nestingTokens <:+: fr.tokens u ↔ u.isNestable = true := by
  constructor
  · intro hinfix
    cases hnone : u.isNestable with
    | true => rfl
    | false =>
      obtain ⟨inner, hinner, hopens, hweight⟩ := exists_mem_nestingTokens fr
      have hmem := hinfix.subset hinner
      simp only [tokens, hnone, Bool.false_eq_true, if_false, List.append_nil, List.mem_append,
        List.mem_cons, List.not_mem_nil, Token.braces_notMem_words, Token.braces_ne_ident,
        Token.braces_inj, rt, inRuntime, false_or, or_false] at hmem
      obtain (hstate | hruntime) | rfl := hmem
      · rw [opensEncoder_of_mem_stateTokens hstate] at hopens
        cases hopens
      · have hle := Token.weight_le_weights hruntime
        rw [Token.braces, Token.weight] at hle
        omega
      · simp only [List.append_assoc] at hopens
        rw [opensEncoder_append (by decide)] at hopens
        revert hopens
        decide
  · intro hnestable
    rw [tokens, if_pos hnestable]
    exact (List.suffix_append _ _).isInfix

end Frame

end CodecForge.Code
