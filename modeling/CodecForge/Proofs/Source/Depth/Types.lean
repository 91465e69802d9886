import CodecForge.Proofs.Source.Agreement
import CodecForge.Proofs.Source.Types

/-!
# How deep the readers of types reach

Where the readers of two grammars agree on tokens below some weight, the readers of types and
patterns that reach one level further agree on tokens that weigh one more: what they hand down to
the next level stands behind a token or in brackets.
-/

namespace CodecForge.Source

open CodecForge.Source.Parser

/-- The readers of the two grammars agree: those of blocks below the weight `b`, and all others
below the weight `w`. -/
structure Grammar.AgreeBelow (w b : Nat) (g g' : Grammar) : Prop where
  type : ∀ sums, Agree w (g.type sums) (g'.type sums)
  expr : ∀ braces, Agree w (g.expr braces) (g'.expr braces)
  unary : ∀ braces, Agree w (g.unary braces) (g'.unary braces)
  pattern : Agree w g.pattern g'.pattern
  single : Agree w g.single g'.single
  block : Agree b g.block g'.block
  early : Agree w g.early g'.early
  item : Agree w g.item g'.item

namespace Grammar

variable {w : Nat} {g g' : Grammar} (h : AgreeBelow w (w + 1) g g')

/-! ### Attributes -/

section Attributes

theorem agree_readPlainPath : Agree w readPlainPath readPlainPath := by
  have hname : Agree w (do require (← peek beginsPathName); anyWord : Parser Ident)
      (do require (← peek beginsPathName); anyWord) :=
    (agree_peek _).bind fun _ => (agree_require _).bind fun _ => agree_anyWord.agree
  refine (agree_peek _).bind fun _ => (agree_op? _).bind fun _ => hname.bind fun _ => ?_
  exact ((agree_op _).bind fun _ => hname).many.bind fun _ => agree_pure _

include h in
theorem agree_readAttributeValue : Agree w g.readAttributeValue g'.readAttributeValue :=
  .branch agree_literal (h.expr _)

include h in
theorem agree_readMeta : Agree w g.readMeta g'.readMeta := by
  have hvalue := agree_readAttributeValue h
  refine agree_readPlainPath.bind fun path ts hts => .get ?_
  have hplain (c : Bool) : Agree w
      (if c then do
        let _ ← op "="
        return ⟨path.1, path.2, .value (← g.readAttributeValue)⟩
      else return ⟨path.1, path.2, .absent⟩ : Parser Attribute)
      (if c then do
        let _ ← op "="
        return ⟨path.1, path.2, .value (← g'.readAttributeValue)⟩
      else return ⟨path.1, path.2, .absent⟩) :=
    .ite _ ((agree_op _).bind fun _ => hvalue.bind fun _ => agree_pure _) (agree_pure _)
  cases ts with
  | nil => exact hplain _ _ hts
  | cons t rest =>
    cases t with
    | group d inner => exact ⟨rfl, fun a rest' hrun => by cases hrun; exact List.suffix_cons _ _⟩
    | _ => exact hplain _ _ hts

include h in
theorem agree_readAttributes : Agree (w + 1) g.readAttributes g'.readAttributes :=
  ((agree_op _).bind fun _ => ((agree_readMeta h).group _).agree).many

include h in
theorem agree_readOuterAttributes :
    Agree (w + 1) g.readOuterAttributes g'.readOuterAttributes :=
  (agree_readAttributes h).bind fun _ => agree_pure _

include h in
theorem agree_readInnerAttributes :
    Agree (w + 1) g.readInnerAttributes g'.readInnerAttributes := by
  refine Agree.bind (.many ?_) fun _ => agree_pure _
  exact agree_token.agree.bind fun _ => (agree_op _).bind fun _ =>
    ((agree_readMeta h).group _).agree

end Attributes

/-! ### Paths and bounds -/

section Paths

include h in
theorem agree_typeTokens (sums : Sums) : Agree w (g.typeTokens sums) (g'.typeTokens sums) :=
  (h.type sums).bind fun _ => agree_pure _

include h in
theorem agree_readConstArg : Agree (w + 1) g.readConstArg g'.readConstArg :=
  .branch agree_literal (.branch (agree_ident.agree.bind fun _ => agree_pure _) h.block)

include h in
theorem agree_readResult (sums : Sums) : Agree (w + 1) (g.readResult sums) (g'.readResult sums) :=
  ((agree_typeTokens h sums).behindSign (by decide)).when

include h in
theorem agree_readSignature : Agree (w + 1) g.readSignature g'.readSignature :=
  .seq ((agree_typeTokens h _).commaList.grouped _).agree
    (.seq (agree_readResult h _) agree_seq_nil)

variable {arg arg' : Parser (GenericArg Ty)} (harg : Agree w arg arg')

theorem agree_readColonBounds {test : Tokens → Bool} {bounds bounds' : Speller}
    (hbounds : Agree w bounds bounds') :
    Agree w (readColonBounds test bounds) (readColonBounds test bounds') :=
  .branch ((agree_op _).bind fun _ =>
    .branch (hbounds.bind fun _ => agree_pure _) (agree_pure _)) (agree_pure _)

include harg in
theorem agree_readAngled (turbofish : Bool) :
    Agree (w + 1) (readAngled arg turbofish) (readAngled arg' turbofish) := by
  refine ((agree_sign (by decide)).bind fun _ => harg.separated.bind fun _ => ?_).agree
  exact (agree_op _).bind fun _ => agree_pure _

include harg in
theorem agree_readSegment (inExpr : Bool) :
    Agree (w + 1) (readSegment arg inExpr) (readSegment arg' inExpr) := by
  refine .branch (agree_anyWord.agree.bind fun _ => agree_pure _) ?_
  refine .branch (agree_anyWord.agree.bind ?args) (agree_ident.agree.bind ?args)
  intro name
  refine (agree_peek _).bind fun _ => .ite _ ?_ ?_
  · exact (agree_readAngled harg _).bind fun _ => agree_pure _
  · refine (agree_peek _).bind fun _ => (agree_peekAfter _ _).bind fun _ => .ite _ ?_ (agree_pure _)
    exact (agree_op _).bind fun _ => (agree_readAngled harg _).bind fun _ => agree_pure _

include harg in
theorem agree_readSegments (inExpr : Bool) :
    Agree (w + 1) (readSegments arg inExpr) (readSegments arg' inExpr) := by
  have hsegment := agree_readSegment harg inExpr
  exact hsegment.bind fun _ =>
    ((agree_op _).bind fun _ => hsegment).many.bind fun _ => agree_pure _

include harg in
theorem agree_readPathWith (inExpr : Bool) :
    Agree (w + 1) (readPathWith arg inExpr) (readPathWith arg' inExpr) :=
  (agree_peek _).bind fun _ => (agree_op? _).bind fun _ =>
    (agree_readSegments harg inExpr).bind fun _ => agree_pure _

include h harg in
theorem agree_readBoundParts :
    Agree (w + 1) (g.readBoundParts arg) (g'.readBoundParts arg') := by
  have hbinder : Agree (w + 1) (when (beginsWord "for") readBinder)
      (when (beginsWord "for") readBinder) := carries_readBinder.agree.when
  refine .branch (agree_lifetime.agree.bind fun _ => agree_pure _) ?_
  refine .branch ((Agree.group _ (Agree.lower ?trait)).agree.bind fun _ => agree_pure _) ?trait
  refine hbinder.bind fun _ => (agree_op? _).bind fun _ => ?_
  refine .ite _ (hbinder.bind ?path) ((agree_pure _).bind ?path)
  intro binder
  refine (agree_readPathWith harg false).bind fun path => (agree_peek _).bind fun _ => ?_
  refine .ite _ ?_ ((agree_pure _).bind fun _ => agree_pure _)
  exact (agree_op? _).bind fun _ => (agree_readSignature h).bind fun _ => agree_pure _

include h harg in
theorem agree_readBoundWith : Agree (w + 1) (g.readBoundWith arg) (g'.readBoundWith arg') :=
  (agree_readBoundParts h harg).bind fun _ => agree_pure _

section Bounds

variable {bound bound' : Speller} (hbound : Agree w bound bound')

include hbound in
theorem agree_readBoundList (sums : Sums) :
    Agree w (readBoundList bound sums) (readBoundList bound' sums) := by
  refine hbound.bind fun _ => ?_
  cases sums with
  | refused => exact agree_pure _
  | allowed =>
    refine ((agree_op _).bind fun _ => hbound).many.bind fun _ => ?_
    exact (agree_op? _).bind fun _ => agree_pure _

include hbound in
theorem agree_readBoundsWith (sums : Sums) :
    Agree w (readBoundsWith bound sums) (readBoundsWith bound' sums) :=
  (agree_readBoundList hbound sums).bind fun _ => agree_pure _

include hbound in
theorem agree_readTraitsWith (sums : Sums) :
    Agree w (readTraitsWith bound sums) (readTraitsWith bound' sums) :=
  (agree_readBoundList hbound sums).bind fun _ => (agree_require _).bind fun _ => agree_pure _

include hbound in
theorem agree_readConstraint : Agree w (readConstraint bound) (readConstraint bound') := by
  refine .branch (agree_pure _) (hbound.bind fun _ => ?_)
  refine ((agree_op _).seq (.seq hbound agree_seq_nil)).many.bind fun _ => ?_
  exact (agree_op? _).bind fun _ => agree_pure _

end Bounds

include h in
/-- An argument may begin with a type, so that it is read behind a token only. -/
theorem agree_readArgFor (n : Nat) : Agree w (g.readArgFor n) (g'.readArgFor n) := by
  have hconst : Agree w g.readConstArg g'.readConstArg := (agree_readConstArg h).lower
  induction n with
  | zero => exact agree_failure
  | succ n ih =>
    refine (agree_peek _).bind fun _ => (agree_peekAfter _ _).bind fun _ => .ite _ ?_ ?_
    · exact agree_lifetime.agree.bind fun _ => agree_pure _
    refine .branch (hconst.bind fun _ => agree_pure _) ((h.type _).bind fun t => ?_)
    cases soleName? t with
    | none => exact agree_pure _
    | some name =>
      refine .branch ((agree_op _).bind fun _ => ?_) (.branch ?_ (agree_pure _))
      · exact .branch (hconst.bind fun _ => agree_pure _)
          ((agree_typeTokens h _).bind fun _ => agree_pure _)
      · have hbound := (agree_readBoundWith h ih).lower
        exact (agree_op _).bind fun _ => (agree_readConstraint hbound).bind fun _ => agree_pure _

include h in
theorem agree_readArg : Agree w g.readArg g'.readArg := .get fun _ => agree_readArgFor h _

include h in
theorem agree_readBound : Agree (w + 1) g.readBound g'.readBound :=
  agree_readBoundWith h (agree_readArg h)

include h in
theorem agree_readBounds (sums : Sums) : Agree (w + 1) (g.readBounds sums) (g'.readBounds sums) :=
  agree_readBoundsWith (agree_readBound h) sums

include h in
theorem agree_readImplBound : Agree (w + 1) g.readImplBound g'.readImplBound :=
  .branch advances_readCapture.agree.agree (agree_readBound h)

include h in
theorem agree_readQualifiedPath (inExpr : Bool) :
    Agree (w + 1) (g.readQualifiedPath inExpr) (g'.readQualifiedPath inExpr) := by
  have harg := agree_readArg h
  have hsegment : Agree w (readSegment g.readArg inExpr) (readSegment g'.readArg inExpr) :=
    (agree_readSegment harg inExpr).lower
  have htrait : Agree w (do let _ ← word "as"; return some (← g.readPath))
      (do let _ ← word "as"; return some (← g'.readPath)) :=
    agree_word "as" |>.agree.bind fun _ =>
      (agree_readPathWith harg false).lower.bind fun _ => agree_pure _
  refine .branch ((agree_sign (by decide)).bind fun _ => (h.type _).bind fun _ => ?_).agree ?_
  · refine .branch (htrait.bind ?segments) ((agree_pure _).bind ?segments)
    intro trait
    refine (agree_op _).bind fun _ => (agree_op _).bind fun _ => hsegment.bind fun _ => ?_
    exact ((agree_op _).bind fun _ => hsegment).many.bind fun _ => agree_pure _
  · exact (agree_readPathWith harg inExpr).bind fun _ => agree_pure _

end Paths

/-! ### Types -/

section Types

include h in
theorem agree_readFunctionType : Agree (w + 1) g.readFunctionType g'.readFunctionType := by
  refine .seq (agree_word? _) (.seq carries_readAbi.agree (.seq (agree_word _).agree ?_))
  refine .seq (Agree.grouped _ (.commaList ?_)).agree (.seq (agree_readResult h _) agree_seq_nil)
  refine .seq (agree_readOuterAttributes h).lower (.seq (.when ?_) (.seq ?_ agree_seq_nil))
  · exact agree_anyWord.agree.bind fun _ => (agree_op _).bind fun _ => agree_pure _
  refine .branch ((agree_op _).bind fun _ => ?_) (agree_typeTokens h _)
  exact (agree_peek _).bind fun _ => (agree_require _).bind fun _ => agree_pure _

include h in
theorem agree_readSum (first : Tokens) : Agree (w + 1) (g.readSum first) (g'.readSum first) := by
  refine ((agree_op _).seq (.seq (agree_readBound h) agree_seq_nil)).many.bind fun _ => ?_
  exact (agree_op? _).bind fun _ => agree_pure _

include h in
theorem agree_readParenthesised (sums : Sums) :
    Agree (w + 1) (g.readParenthesised sums) (g'.readParenthesised sums) := by
  refine .bindInside _ fun inside hinside => .ite _ (agree_pure _) (.ite _ ?_ (.ite _ ?_ ?_))
  · rw [(agree_readBounds h _).lower.all_eq hinside]
    exact (agree_liftM _).bind fun _ => agree_pure _
  · rw [(agree_readBound h).lower.all_eq hinside]
    exact (agree_liftM _).bind fun _ => (agree_readSum h _).bind fun _ => agree_pure _
  · rw [(h.type _).listed.all_eq hinside]
    refine (agree_liftM _).bind fun (elems, trailing) => ?_
    match elems with
    | [] | _ :: _ :: _ => exact agree_pure _
    | [inner] =>
      refine .ite _ (agree_pure _) ((agree_peek _).bind fun _ => .ite _ ?_ (agree_pure _))
      exact (agree_readSum h _).bind fun _ => agree_pure _

include h in
theorem agree_readNamed (sums : Sums) (binder : Tokens) :
    Agree (w + 1) (g.readNamed sums binder) (g'.readNamed sums binder) := by
  refine (agree_readQualifiedPath h _).bind fun t => ?_
  cases t with
  | path p =>
    refine (agree_peek _).bind fun _ => .ite _ ?_ ?_
    · exact (agree_op _).bind fun _ => agree_anyGroup.agree.bind fun _ => agree_pure _
    refine (agree_peek _).bind fun _ => .ite _ ?_ (agree_pure _)
    cases sums with
    | allowed => exact (agree_readSum h _).bind fun _ => agree_pure _
    | refused => exact agree_pure _
  | _ => exact agree_pure _

include h in
theorem agree_readType (sums : Sums) : Agree (w + 1) (g.readType sums) (g'.readType sums) := by
  have hbound := agree_readBound h
  refine carries_readBinder.agree.when.bind fun binder => (agree_peek _).bind fun _ => ?_
  refine .ite _ agree_failure (.branch (agree_readParenthesised h sums) ?_)
  refine .branch ((agree_readFunctionType h).bind fun _ => agree_pure _) ?_
  refine .branch (agree_readNamed h sums binder) ?_
  -- a sum of bounds that is named as such
  refine .branch ?_ (.branch (Agree.group _ ?_).agree ?_)
  · refine (agree_word _).agree.bind fun _ => (agree_op? _).bind fun _ => ?_
    exact (agree_readTraitsWith hbound sums).bind fun _ => agree_pure _
  -- an array and a slice
  · refine (h.type _).bind fun elem => .branch ?_ (agree_pure _)
    exact (agree_op _).bind fun _ => (h.expr _).bind fun _ => agree_pure _
  -- a pointer and a reference
  refine .branch ?_ (.branch ?_ ?_)
  · refine ((agree_sign (by decide)).bind fun _ => ?_).agree
    refine .branch ((agree_word _).agree.bind ?target) ((agree_word _).agree.bind ?target)
    exact fun _ => (agree_typeTokens h _).bind fun _ => agree_pure _
  · refine (((agree_sign (by decide)).seq (.seq (.when ?_) (.seq (agree_word? _)
      (.seq (agree_typeTokens h _) agree_seq_nil)))).agree).bind fun _ => agree_pure _
    exact agree_lifetime.agree.bind fun _ => agree_pure _
  refine .branch ((agree_op _).bind fun _ => agree_pure _) ?_
  -- an opaque sum of bounds
  refine .branch ?_ (.branch ((agree_word _).agree.bind fun _ => agree_pure _) ?_)
  · refine (agree_word _).agree.bind fun _ => ?_
    exact (agree_readTraitsWith (agree_readImplBound h) sums).bind fun _ => agree_pure _
  · exact .branch ((agree_readTraitsWith hbound _).bind fun _ => agree_pure _) agree_failure

end Types

/-! ### Generic parameters -/

section Generics

theorem agree_lifetimeToken : Agree w (do return [.lifetime (← lifetime)] : Speller)
    (do return [.lifetime (← lifetime)]) :=
  agree_lifetime.agree.bind fun _ => agree_pure _

include h in
theorem agree_readGenericParam : Agree (w + 1) g.readGenericParam g'.readGenericParam := by
  have htype : Agree (w + 1) (when (beginsOp "=") (seq [op "=", g.typeTokens .allowed]))
      (when (beginsOp "=") (seq [op "=", g'.typeTokens .allowed])) :=
    ((agree_typeTokens h _).behindSign (by decide)).when
  refine (agree_readOuterAttributes h).bind fun attributes => .branch ?_ (.branch ?_ ?_)
  · refine agree_lifetime.agree.bind fun _ => (agree_readColonBounds ?_).bind fun _ => agree_pure _
    exact agree_readBoundsWith agree_lifetimeToken _
  · have hvalue : Agree w (when (beginsOp "=") (seq [op "=", g.readConstArg]))
        (when (beginsOp "=") (seq [op "=", g'.readConstArg])) :=
      ((agree_op _).seq (.seq (agree_readConstArg h).lower agree_seq_nil)).when
    refine Agree.bind ((agree_word _).seq (.seq ?_ (.seq (agree_op _)
      (.seq (agree_typeTokens h _) (.seq hvalue agree_seq_nil))))).agree fun _ => agree_pure _
    exact agree_ident.agree.bind fun _ => agree_pure _
  · refine agree_ident.agree.bind fun _ => ?_
    refine (agree_readColonBounds (agree_readBounds h _)).bind fun _ => ?_
    exact htype.bind fun _ => agree_pure _

include h in
theorem agree_readGenerics : Agree (w + 1) g.readGenerics g'.readGenerics := by
  refine .branch ((agree_op _).bind fun _ => ?_) (agree_pure _)
  refine (agree_readGenericParam h).separated.bind fun _ => (agree_op _).bind fun _ => ?_
  exact .ite _ (agree_pure _) (agree_pure _)

include h in
theorem agree_readWherePredicate :
    Agree w g.readWherePredicate g'.readWherePredicate := by
  refine (agree_peek _).bind fun _ => (agree_peekAfter _ _).bind fun _ => .ite _ ?_ ?_
  · refine agree_lifetime.agree.bind fun _ => Agree.bind ?_ fun _ => agree_pure _
    exact (agree_op _).seq (.seq (agree_readBoundsWith agree_lifetimeToken _).when agree_seq_nil)
  · refine carries_readBinder.agree.when.seq (.seq (agree_typeTokens h _) (.seq (agree_op _) ?_))
    exact (agree_readBounds h _).lower.when.seq agree_seq_nil

include h in
theorem agree_readWhere : Agree (w + 1) g.readWhere g'.readWhere := by
  refine .branch ?_ (agree_pure _)
  refine ((agree_word _).bind fun _ => ?_).agree
  exact (agree_readWherePredicate h).separated.bind fun _ => .ite _ (agree_pure _) (agree_pure _)

end Generics

/-! ### Patterns -/

section Patterns

include h in
theorem agree_readRangeEnd : Agree (w + 1) g.readRangeEnd g'.readRangeEnd := by
  refine .branch agree_literal (.branch ?_ ?_)
  · exact (agree_word _).agree.seq (.seq h.block agree_seq_nil)
  · exact (agree_readQualifiedPath h _).bind fun _ => agree_pure _

include h in
theorem agree_readRangeRest : Agree (w + 1) g.readRangeRest g'.readRangeRest := by
  have hend := agree_readRangeEnd h
  refine .branch ((agree_op _).seq (.seq hend agree_seq_nil)) ?_
  refine .branch ((agree_op _).seq (.seq hend agree_seq_nil)) ?_
  exact (agree_op _).seq (.seq hend.when agree_seq_nil)

include h in
theorem agree_readBinding : Agree (w + 1) g.readBinding g'.readBinding := by
  have hinner : Agree (w + 1) (when (beginsOp "@") (seq [op "@", g.single]))
      (when (beginsOp "@") (seq [op "@", g'.single])) := (h.single.behindSign (by decide)).when
  refine Agree.bind ((agree_word? _).seq ((agree_word? _).seq agree_seq_nil)) fun _ => ?_
  refine .branch ((agree_word _).agree.bind ?inner) (agree_ident.agree.bind fun _ => ?_)
  · exact fun _ => hinner.bind fun _ => agree_pure _
  · exact (agree_pure _).bind fun _ => hinner.bind fun _ => agree_pure _

include h in
theorem agree_readFieldPattern : Agree w g.readFieldPattern g'.readFieldPattern := by
  refine (agree_readOuterAttributes h).lower.bind fun _ => .branch ?_ (.branch ?_ ?_)
  · exact (agree_op _).bind fun _ => agree_pure _
  · exact agree_token.agree.bind fun _ => (agree_op _).bind fun _ =>
      h.pattern.bind fun _ => agree_pure _
  · refine Agree.bind (.seq (agree_word? _) (.seq (agree_word? _) (.seq (agree_word? _)
      (.seq ?_ agree_seq_nil)))) fun _ => agree_pure _
    exact agree_ident.agree.bind fun _ => agree_pure _

include h in
theorem agree_readPathPattern : Agree (w + 1) g.readPathPattern g'.readPathPattern := by
  refine (agree_readQualifiedPath h _).bind fun path => .branch ?_ (.branch ?_ (.branch ?_ ?_))
  · exact (agree_op _).bind fun _ => agree_anyGroup.agree.bind fun _ => agree_pure _
  · exact ((agree_readFieldPattern h).commaList.grouped _).agree.bind fun _ => agree_pure _
  · exact (h.pattern.commaList.grouped _).agree.bind fun _ => agree_pure _
  · exact .branch ((agree_readRangeRest h).bind fun _ => agree_pure _) (agree_pure _)

include h in
theorem agree_readSinglePattern : Agree (w + 1) g.readSinglePattern g'.readSinglePattern := by
  have hlist := h.pattern.commaList
  refine .branch (agree_readPathPattern h) (.branch (agree_word _).agree (.branch ?_ ?_))
  · exact (agree_readRangeEnd h).bind fun _ =>
      (agree_readRangeRest h).when.bind fun _ => agree_pure _
  refine .branch (agree_readBinding h) (.branch ?_ ?_)
  · exact ((agree_sign (by decide)).seq ((agree_word? _).seq (.seq h.single agree_seq_nil))).agree
  refine .branch (hlist.grouped _).agree (.branch (hlist.grouped _).agree ?_)
  exact .branch (agree_readRangeRest h) agree_failure

include h in
theorem agree_readPattern : Agree (w + 1) g.readPattern g'.readPattern := by
  have hsingle := agree_readSinglePattern h
  refine (agree_op _).when.bind fun _ => hsingle.bind fun _ => ?_
  exact ((agree_op _).seq (.seq hsingle agree_seq_nil)).many.bind fun _ => agree_pure _

end Patterns

end Grammar

end CodecForge.Source
