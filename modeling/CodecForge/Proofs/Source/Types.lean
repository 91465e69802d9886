import CodecForge.Proofs.Source.Boundaries

/-!
# Reading types up to a comma

A type that has been read to the end of its text is read the same where a comma and more text come
behind it, with a blank or without, whatever the depth of nesting that the readers reach.
-/

namespace CodecForge.Source

open CodecForge.Source.Parser

namespace Grammar

/-! ### Paths and bounds -/

section Arguments

variable {g : Grammar} (hsums : ∀ sums, Carries (g.type sums) (g.type sums))
  (hblock : Carries g.block g.block) {arg arg' : Parser (GenericArg Ty)} (harg : Carries arg arg')

theorem carries_readColonBounds {test : Tokens → Bool} {bounds : Speller} (htest : Stable test)
    (h : Carries bounds bounds) :
    Carries (readColonBounds test bounds) (readColonBounds test bounds) := by
  refine .branch (stable_beginsOp (by decide)) ((carries_op _).bind fun _ => ?_) (carries_pure _)
  refine .branch htest ?_ (carries_pure _)
  exact h.bind fun _ => carries_pure _

theorem carries_readBinder : Carries readBinder readBinder := by
  refine (advances_word _).carries.bind fun _ => (carries_op _).bind fun _ => ?_
  refine (Carries.separated (stable_beginsOp (by decide)) ?_).bind fun _ =>
    (carries_op _).bind fun _ => carries_pure _
  refine advances_lifetime.carries.bind fun _ => ?_
  refine (carries_readColonBounds stable_beginsLifetime ?_).bind fun _ => carries_pure _
  refine (Carries.separated stable_beginsLifetime.not ?_).bind fun _ => carries_pure _
  exact advances_lifetime.carries.bind fun _ => carries_pure _

section Bounds

variable {bound bound' : Speller} (hbound : Advances bound bound')

end Bounds

theorem advances_readCapture : Advances readCapture readCapture := by
  have hname : Stable fun ts => beginsIdent ts || beginsWord "Self" ts :=
    stable_beginsIdent.or (stable_beginsWord _)
  refine ((advances_word _).seq_cons ((carries_op _).seq_cons carries_seq_nil)).bind fun _ => ?_
  refine (Carries.separated (stable_beginsOp (by decide)) ?_).bind fun _ =>
    (carries_op _).bind fun _ => carries_pure _
  refine .branch stable_beginsLifetime ?_ ?_
  · exact advances_lifetime.carries.bind fun _ => carries_pure _
  · exact (carries_peek hname).bind fun _ => (Carries.require _).bind fun _ =>
      advances_anyWord.carries.bind fun _ => carries_pure _

theorem carries_readAbi : Carries readAbi readAbi := by
  have htext : Stable readAbi.isText :=
    stable_of_head (fun t _ _ => by cases t <;> rfl) fun _ _ _ => rfl
  refine Carries.when ?_ (stable_beginsWord _)
  exact .seq_cons (advances_word _).carries (.seq_cons (carries_literal.when htext) carries_seq_nil)

end Arguments

/-! ### Grammars -/

end Grammar

end CodecForge.Source
