import CodecForge.Proofs.Source.Depth.Expressions
import CodecForge.Source.Grammar.Declaration

/-!
# How deep the readers reach

The readers of items, statements and blocks, and with them those of all syntactic classes: the
grammar for some tokens reaches as deep as they go, so that a grammar that reaches further reads
them in the same way.
-/

namespace CodecForge.Source

open CodecForge.Source.Parser

namespace Grammar

variable {w : Nat} {g g' : Grammar} (h : AgreeBelow w (w + 1) g g')

/-! ### Fields and variants -/

section Fields

theorem agree_readVisibility : Agree w readVisibility readVisibility := by
  refine .branch ((agree_word _).agree.bind fun _ ts hts => .get ?_) (agree_pure _)
  cases ts with
  | nil => exact agree_pure _ _ hts
  | cons t rest =>
    have hset (inner : Tokens) : AgreeAt
        (do set rest; return Visibility.within inner : Parser Visibility)
        (do set rest; return Visibility.within inner) (t :: rest) (t :: rest) :=
      ⟨rfl, fun a rest' hrun => by cases hrun; exact List.suffix_cons _ _⟩
    cases t with
    | group d inside =>
      cases d with
      | paren =>
        dsimp only
        cases restriction? inside with
        | some inner =>
          split
          · exact hset inner
          · exact hset inner
        | none =>
          split
          · exact agree_failure _ hts
          · exact agree_pure _ _ hts
      | _ => exact agree_pure _ _ hts
    | _ => exact agree_pure _ _ hts

include h in
theorem agree_readField : Agree w g.readField g'.readField := by
  refine (agree_readAttributes h).lower.bind fun _ => agree_readVisibility.bind fun _ => ?_
  refine .branch (agree_anyWord.agree.bind ?type) (agree_ident.agree.bind ?type)
  exact fun _ => (agree_op _).bind fun _ => (h.type _).bind fun _ => agree_pure _

include h in
theorem agree_readNamedFields : Agree (w + 1) g.readNamedFields g'.readNamedFields :=
  ((agree_readField h).listed.group _).agree.bind fun _ => agree_pure _

include h in
theorem agree_readUnnamedFields : Agree (w + 1) g.readUnnamedFields g'.readUnnamedFields := by
  refine (Agree.grouped _ (Agree.commaList (.seq (agree_readOuterAttributes h).lower
    (.seq ?_ (.seq (agree_typeTokens h _) agree_seq_nil))))).agree
  exact agree_readVisibility.bind fun _ => agree_pure _

include h in
theorem agree_readVariant : Agree (w + 1) g.readVariant g'.readVariant := by
  refine (agree_readOuterAttributes h).bind fun _ => agree_readVisibility.bind fun _ => ?_
  refine agree_ident.agree.bind fun _ => .branch (Agree.bind ?_ ?value) (.bind ?_ ?value)
  · exact (agree_readNamedFields h).bind fun _ => agree_pure _
  · exact fun _ => ((h.expr _).behindSign (by decide)).when.bind fun _ => agree_pure _
  · exact (agree_readUnnamedFields h).when

include h in
theorem agree_readTypeBody (form : String) :
    Agree (w + 1) (g.readTypeBody form) (g'.readTypeBody form) := by
  have hfields := agree_readNamedFields h
  have hwhere := agree_readWhere h
  refine (agree_peek _).bind fun _ => hwhere.bind fun _ => ?_
  split
  · refine (agree_peek _).bind fun _ => .ite _ ?_ (.branch ?_ ?_)
    · refine Agree.bind ?_ fun _ => agree_pure _
      exact (agree_readUnnamedFields h).seq (hwhere.seq ((agree_op _).seq agree_seq_nil))
    · exact hfields.bind fun _ => agree_pure _
    · exact (agree_op _).bind fun _ => agree_pure _
  · exact ((agree_readVariant h).lower.commaList.grouped _).agree.bind fun _ => agree_pure _
  · exact hfields.bind fun _ => agree_pure _
  · exact agree_failure

end Fields

/-! ### Functions -/

section Functions

theorem agree_readNameOrBlank : Agree w readNameOrBlank readNameOrBlank :=
  (agree_peek _).bind fun _ => (agree_require _).bind fun _ =>
    agree_anyWord.agree.bind fun _ => agree_pure _

theorem agree_readSpelled {p q : Parser (Option Tokens)} (hp : Agree w p q) :
    Agree w (readSpelled p) (readSpelled q) := by
  refine .get fun before => hp.bind fun o => ?_
  cases o with
  | some tokens => exact agree_pure _
  | none => exact .get fun _ => agree_pure _

theorem agree_identToken : Agree w (do return [(← ident).token] : Speller)
    (do return [(← ident).token]) := agree_ident.agree.bind fun _ => agree_pure _

include h in
theorem agree_readReceiver : Agree (w + 1) g.readReceiver g'.readReceiver := by
  have htype := (agree_typeTokens h .allowed).behindSign (s := ":") (by decide)
  refine .branch ?_ ?_
  · exact (agree_op _).seq (agree_lifetimeToken.when.seq ((agree_word? _).seq
      ((agree_word _).agree.seq agree_seq_nil)))
  · exact (agree_word? _).seq ((agree_word _).agree.seq (htype.when.seq agree_seq_nil))

include h in
theorem agree_readParam : Agree w g.readParam g'.readParam := by
  have htype := agree_typeTokens h .allowed
  refine (agree_readOuterAttributes h).lower.bind fun _ => .branch ?_ (.branch ?_ (.branch ?_ ?_))
  · exact (agree_readReceiver h).lower.bind fun _ => agree_pure _
  · exact (agree_op _).bind fun _ => agree_pure _
  · exact htype.bind fun _ => agree_pure _
  · refine Agree.bind (h.single.seq ((agree_op _).seq agree_seq_nil)) fun _ => .branch ?_ ?_
    · exact (agree_op _).bind fun _ => agree_pure _
    · exact htype.bind fun _ => agree_pure _

include h in
theorem agree_readParams : Agree w g.readParams g'.readParams :=
  (agree_readParam h).listed.bind fun _ => (agree_require _).bind fun _ => agree_pure _

include h in
theorem agree_readFunctionHead (foreign : Bool) :
    Agree (w + 1) (g.readFunctionHead foreign) (g'.readFunctionHead foreign) := by
  refine Agree.bind ((agree_word? _).seq ((agree_word? _).seq (.seq ?_ (.seq carries_readAbi.agree
    ((agree_word _).agree.seq (agree_identToken.seq agree_seq_nil)))))) fun _ => ?_
  · exact .branch (agree_word _).agree (agree_word? _)
  refine (agree_readGenerics h).bind fun _ => (agree_pure _).seq ?_
  exact ((agree_readParams h).grouped _).agree.seq ((agree_readResult h _).seq
    ((agree_readWhere h).seq agree_seq_nil))

end Functions

/-! ### Constants and types -/

section Constants

include h in
theorem agree_readConst (optional : Bool) :
    Agree (w + 1) (g.readConst optional) (g'.readConst optional) := by
  have htype := (agree_typeTokens h .allowed).behindSign (s := ":") (by decide)
  have hvalue := (h.expr .joined).behindSign (s := "=") (by decide)
  refine Agree.bind ((agree_word _).agree.seq (agree_readNameOrBlank.seq agree_seq_nil)) fun _ => ?_
  refine (agree_peek _).bind fun _ => (agree_readGenerics h).bind fun _ => htype.bind fun _ => ?_
  refine hvalue.when.bind fun _ => (agree_peek _).bind fun _ => (agree_readWhere h).bind fun _ => ?_
  exact (agree_op _).bind fun _ => .ite _ (agree_pure _) (agree_pure _)

include h in
theorem agree_readStatic : Agree (w + 1) g.readStatic g'.readStatic := by
  have htype := (agree_typeTokens h .allowed).behindSign (s := ":") (by decide)
  have hvalue := (h.expr .joined).behindSign (s := "=") (by decide)
  refine Agree.bind ((agree_word _).agree.seq ((agree_word? _).seq
    (agree_identToken.seq agree_seq_nil))) fun _ => ?_
  refine .branch ((agree_pure _).bind ?value) (htype.bind ?value)
  refine fun _ => hvalue.when.bind fun _ => (agree_op _).bind fun _ => ?_
  exact .ite _ (agree_pure _) (agree_pure _)

include h in
theorem agree_readBoundsUpTo (stop : Tokens → Bool) :
    Agree (w + 1) (g.readBoundsUpTo stop) (g'.readBoundsUpTo stop) :=
  (agree_readBound h).separated.bind fun _ => agree_pure _

include h in
theorem agree_readTypeAlias (early late : Bool) :
    Agree (w + 1) (g.readTypeAlias early late) (g'.readTypeAlias early late) := by
  have hvalue := (agree_typeTokens h .allowed).behindSign (s := "=") (by decide)
  have hwhere := agree_readWhere h
  refine Agree.bind ((agree_word _).agree.seq (agree_identToken.seq agree_seq_nil)) fun _ => ?_
  refine (agree_readGenerics h).bind fun _ => (agree_peek _).bind fun _ => ?_
  refine (agree_readColonBounds (agree_readBoundsUpTo h _)).bind fun _ => ?_
  refine (agree_peek _).bind fun _ => .ite _ (hwhere.bind ?value) ((agree_pure _).bind ?value)
  refine fun _ => hvalue.when.bind fun _ => .ite _ (hwhere.bind ?last) ((agree_pure _).bind ?last)
  exact fun _ => (agree_op _).bind fun _ => agree_pure _

include h in
theorem agree_readTypeItem : Agree (w + 1) g.readTypeItem g'.readTypeItem :=
  agree_anyWord.agree.bind fun _ => agree_ident.agree.bind fun _ =>
    (agree_readGenerics h).bind fun _ => (agree_readTypeBody h _).bind fun _ => agree_pure _

end Constants

/-! ### Macro calls and imports -/

section Calls

theorem agree_readCallItem (named : Bool) :
    Agree w (readCallItem named) (readCallItem named) := by
  refine agree_readPlainPath.bind fun _ => (agree_op _).bind fun _ => ?_
  refine Agree.bind (.when (agree_anyWord.agree.bind fun _ => agree_pure _)) fun _ => ?_
  refine (agree_peek _).bind fun _ => agree_anyGroup.agree.bind fun _ => ?_
  exact .ite _ ((agree_pure _).bind fun _ => agree_pure _)
    ((agree_op _).bind fun _ => agree_pure _)

theorem agree_readUseTree (n : Nat) : Agree w (readUseTree n) (readUseTree n) := by
  have halias := (agree_word "as").agree.seq (agree_readNameOrBlank.seq (agree_seq_nil (w := w)))
  induction n with
  | zero => exact agree_failure
  | succ n ih =>
    refine .branch (agree_op _) (.branch ?_ ?_)
    · exact (advances_grouped_self _ _).agree.agree
    refine (agree_peek _).bind fun _ => (agree_require _).bind fun _ => ?_
    refine agree_anyWord.agree.bind fun _ => .branch ?_ (halias.when.bind fun _ => agree_pure _)
    exact Agree.bind ((agree_op _).seq (ih.seq agree_seq_nil)) fun _ => agree_pure _

theorem agree_readUse : Agree w readUse readUse :=
  (agree_word _).agree.seq ((agree_op? _).seq (.seq (.get fun _ => agree_readUseTree _)
    ((agree_op _).seq agree_seq_nil)))

theorem agree_readExternCrate : Agree w readExternCrate readExternCrate := by
  have halias := (agree_word "as").agree.seq (agree_readNameOrBlank.seq (agree_seq_nil (w := w)))
  refine (agree_word _).agree.seq ((agree_word _).agree.seq (.seq ?_ (halias.when.seq
    ((agree_op _).seq agree_seq_nil))))
  exact .branch (agree_word _).agree agree_identToken

theorem agree_readMacro : Agree w readMacro readMacro :=
  (agree_word _).agree.seq (agree_identToken.seq (agree_anyGroup.agree.when.seq
    ((advances_grouped_self _ _).agree.agree.seq agree_seq_nil)))

end Calls

/-! ### Traits, implementations and foreign blocks -/

section Associated

include h in
theorem agree_readAssociated (inTrait : Bool) :
    Agree (w + 1) (g.readAssociated inTrait) (g'.readAssociated inTrait) := by
  refine agree_readSpelled ((agree_readOuterAttributes h).bind fun _ => ?_)
  refine agree_readVisibility.bind fun _ => ?_
  refine (agree_word _).agree.when.bind fun _ => .branch ?_ (.branch ?_ (.branch ?_ ?_))
  · refine (agree_readFunctionHead h _).bind fun _ => (agree_peek _).bind fun _ => ?_
    refine .ite _ ((agree_op _).bind ?last) (h.block.bind ?last)
    exact fun _ => .ite _ (agree_pure _) (agree_pure _)
  · exact (agree_readConst h _).bind fun _ => agree_pure _
  · exact (agree_readTypeAlias h _ _).bind fun _ => .ite _ (agree_pure _) (agree_pure _)
  · exact (agree_require _).bind fun _ => (agree_readCallItem _).bind fun _ => agree_pure _

include h in
theorem agree_readAssociatedItems (inTrait : Bool) :
    Agree w (g.readAssociatedItems inTrait) (g'.readAssociatedItems inTrait) := by
  refine (agree_readInnerAttributes h).lower.seq (.seq ?_ agree_seq_nil)
  exact (agree_readAssociated h _).lower.many.bind fun _ => agree_pure _

include h in
theorem agree_readTraitBounds : Agree (w + 1) g.readTraitBounds g'.readTraitBounds :=
  (agree_op? _).bind fun _ =>
    .ite _ (agree_pure _) (agree_readBoundParts h (agree_readArg h)).separated

include h in
theorem agree_readTrait : Agree (w + 1) g.readTrait g'.readTrait := by
  have hwhere := agree_readWhere h
  refine Agree.bind ((agree_word? _).seq ((agree_word? _).seq ((agree_word _).agree.seq
    agree_seq_nil))) fun _ => ?_
  refine agree_ident.agree.bind fun _ => (agree_readGenerics h).bind fun _ => ?_
  refine (agree_peek _).bind fun _ => .ite _ ?_ ((agree_readTraitBounds h).bind fun _ => ?_)
  · exact (agree_pure _).seq ((agree_op _).seq ((agree_readBoundsUpTo h _).seq (hwhere.seq
      ((agree_op _).seq agree_seq_nil))))
  · exact (agree_pure _).seq (hwhere.seq
      (((agree_readAssociatedItems h _).grouped _).agree.seq agree_seq_nil))

include h in
theorem agree_readImplementation (visible : Bool) :
    Agree (w + 1) (g.readImplementation visible) (g'.readImplementation visible) := by
  have hfront : AgreeTaking (w + 1) (seq [word? "default", word? "unsafe", word "impl"]) _ :=
    (agree_word? _).seqTaking ((agree_word? _).seqTaking ((agree_word _).seq agree_seq_nil))
  have hitems := ((agree_readAssociatedItems h false).grouped .brace).agree.seq agree_seq_nil
  refine (hfront.bind fun _ => ?_).agree
  refine .branch ((Agree.bind (agree_readGenerics h).lower fun _ => agree_pure _).bind ?rest)
    ((agree_pure _).bind ?rest)
  intro generics
  refine Agree.bind (.when ((agree_op? _).seq ((agree_word _).agree.seq agree_seq_nil))) fun _ => ?_
  refine (agree_op _).when.bind fun _ => (h.type _).bind fun _ => ?_
  refine Agree.bind (.when ((agree_word _).agree.seq ((agree_typeTokens h _).seq agree_seq_nil)))
    fun _ => ?_
  refine Agree.bind ((agree_readWhere h).seq hitems).lower fun _ => ?_
  exact .ite _ (agree_pure _) (agree_pure _)

include h in
theorem agree_readForeignItem : Agree w g.readForeignItem g'.readForeignItem := by
  refine agree_readSpelled ((agree_readOuterAttributes h).lower.bind fun _ => ?_)
  refine agree_readVisibility.bind fun _ => .branch ?_ (.branch ?_ (.branch ?_ ?_))
  · refine (agree_readFunctionHead h _).lower.bind fun _ => .branch ?_ ?_
    · exact h.block.lower.bind fun _ => agree_pure _
    · exact (agree_op _).bind fun _ => agree_pure _
  · have hvalue := (agree_op "=").seq ((h.expr .joined).seq agree_seq_nil)
    refine Agree.bind (.when (agree_token.agree.bind fun _ => agree_pure _)) fun _ => ?_
    refine Agree.bind ((agree_word _).agree.seq ((agree_word? _).seq (agree_identToken.seq
      ((agree_op _).seq ((agree_typeTokens h _).seq agree_seq_nil))))) fun _ => ?_
    refine hvalue.when.bind fun _ => (agree_op _).bind fun _ => ?_
    exact .ite _ (agree_pure _) (agree_pure _)
  · exact (agree_readTypeAlias h _ _).lower.bind fun _ => .ite _ (agree_pure _) (agree_pure _)
  · exact (agree_require _).bind fun _ => (agree_readCallItem _).bind fun _ => agree_pure _

include h in
theorem agree_readForeignBlock : Agree (w + 1) g.readForeignBlock g'.readForeignBlock := by
  have hitems : Agree w (do return (← many (!·.isEmpty) g.readForeignItem).flatten)
      (do return (← many (!·.isEmpty) g'.readForeignItem).flatten) :=
    (agree_readForeignItem h).many.bind fun _ => agree_pure _
  have hinside := (agree_readInnerAttributes h).lower.seq (hitems.seq agree_seq_nil)
  exact (agree_word? _).seq (carries_readAbi.agree.seq ((hinside.grouped _).agree.seq
    agree_seq_nil))

end Associated

/-! ### Items -/

section Items

include h in
theorem agree_readModule : Agree (w + 1) g.readModule g'.readModule := by
  have hitems : Agree w (do return (← many (!·.isEmpty) g.item).flatten)
      (do return (← many (!·.isEmpty) g'.item).flatten) := h.item.many.bind fun _ => agree_pure _
  have hinside := (agree_readInnerAttributes h).lower.seq (hitems.seq agree_seq_nil)
  exact (agree_word? _).seq ((agree_word _).agree.seq (agree_identToken.seq
    (.seq (.branch (agree_op _) (hinside.grouped _).agree) agree_seq_nil)))

include h in
theorem agree_readItem : Agree (w + 1) g.readItem g'.readItem := by
  have hspelled {p q : Speller} (front : Tokens) (hp : Agree (w + 1) p q) :
      Agree (w + 1) (return some (front ++ (← p)) : Parser (Option Tokens))
        (return some (front ++ (← q))) := hp.bind fun _ => agree_pure _
  refine agree_readSpelled ((agree_readOuterAttributes h).bind fun _ => ?_)
  refine agree_readVisibility.bind fun _ => ?_
  refine .get fun ts => .ite _ ?function (.ite _ (hspelled _ agree_readExternCrate) ?_)
  case function =>
    refine (agree_readFunctionHead h _).bind fun _ => .branch ?_ (hspelled _ ?_)
    · exact (agree_op _).bind fun _ => agree_pure _
    · exact h.block.bind fun _ => agree_pure _
  refine .ite _ (hspelled _ (agree_readForeignBlock h)) (.ite _ (hspelled _ agree_readUse) ?_)
  refine .ite _ ((agree_readStatic h).bind fun _ => agree_pure _) ?_
  refine .ite _ ((agree_readConst h _).bind fun _ => agree_pure _) ?_
  refine .ite _ (hspelled _ (agree_readModule h)) (.ite _ ?_ ?_)
  · exact (agree_readTypeAlias h _ _).bind fun _ => agree_pure _
  refine .ite _ (hspelled _ (agree_readTypeItem h)) (.ite _ (hspelled _ (agree_readTrait h)) ?_)
  refine .ite _ ((agree_readImplementation h _).bind fun _ => agree_pure _) (.ite _ ?_ ?_)
  · exact agree_readMacro.bind fun _ => agree_pure _
  · exact (agree_require _).bind fun _ => hspelled _ (agree_readCallItem _)

end Items

/-! ### Blocks -/

section Blocks

include h in
theorem agree_readLet : Agree (w + 1) g.readLet g'.readLet := by
  have htype := (agree_typeTokens h .allowed).behindSign (s := ":") (by decide)
  have helse := h.block.lower.behindWord "else"
  have hvalue : Agree (w + 1)
      (do return (← op "=") ++ (← g.expr .joined) ++
        (← when (beginsWord "else") (seq [word "else", g.block])) : Speller)
      (do return (← op "=") ++ (← g'.expr .joined) ++
        (← when (beginsWord "else") (seq [word "else", g'.block]))) :=
    ((agree_sign (by decide)).bind fun _ => (h.expr _).bind fun _ =>
      helse.lower.when.bind fun _ => agree_pure _).agree
  refine ((agree_word _).seq (h.single.seq (htype.lower.when.seq ?_))).agree
  exact hvalue.lower.when.seq ((agree_op _).seq agree_seq_nil)

theorem AgreeBelow.mono {v v' b b' : Nat} (h : AgreeBelow v b g g') (hv : v' ≤ v) (hb : b' ≤ b) :
    AgreeBelow v' b' g g' where
  type sums := (h.type sums).mono hv
  expr braces := (h.expr braces).mono hv
  unary braces := (h.unary braces).mono hv
  pattern := h.pattern.mono hv
  single := h.single.mono hv
  block := h.block.mono hb
  early := h.early.mono hv
  item := h.item.mono hv

/-- A statement may be an item or an expression from its first token on. -/
theorem agree_readStatement (h : AgreeBelow (w + 1) (w + 1) g g') :
    Agree (w + 1) g.readStatement g'.readStatement := by
  have hw : AgreeBelow w (w + 1) g g' := h.mono (Nat.le_succ w) (Nat.le_refl _)
  refine .branch (agree_op _) fun ts hts => .get ((agree_readOuterAttributes hw ts hts).bind ?_)
  intro attributes rest _ hrest
  have hitem : AgreeAt (do set ts; g.item : Speller) (do set ts; g'.item) rest ts :=
    ⟨(h.item ts hts).run_eq, (h.item ts hts).suffix⟩
  refine .branch (Agree.behind ?call hts hrest) (.branch (Agree.behind ?binding hts hrest)
    (.branch hitem (Agree.behind ?value hts hrest)))
  case call =>
    refine agree_readPlainPath.bind fun _ => Agree.bind ?_ fun _ => agree_pure _
    exact (agree_op _).seq (agree_anyGroup.agree.seq agree_seq_nil)
  case binding => exact (agree_readLet hw).bind fun _ => agree_pure _
  case value =>
    refine h.early.bind fun _ => (agree_op? _).bind fun _ => (agree_peek _).bind fun _ => ?_
    exact (agree_require _).bind fun _ => agree_pure _

/-- What a block holds weighs less than the block. -/
theorem agree_readBlock (h : AgreeBelow w w g g') : Agree (w + 1) g.readBlock g'.readBlock := by
  refine (Agree.grouped _ ?_).agree
  cases w with
  | zero => exact fun ts hts => absurd hts (Nat.not_lt_zero _)
  | succ w =>
    have hw : AgreeBelow w (w + 1) g g' := h.mono (Nat.le_succ w) (Nat.le_refl _)
    refine (agree_readInnerAttributes hw).seq (.seq ?_ agree_seq_nil)
    exact (agree_readStatement h).many.bind fun _ => agree_pure _

end Blocks

/-! ### Depths -/

section Depths

theorem AgreeBelow.deepen (h : AgreeBelow w (w + 1) g g') :
    AgreeBelow (w + 1) (w + 1) g.deepen g'.deepen where
  type := agree_readType h
  expr braces := (agree_readExpr h braces).bind fun _ => agree_pure _
  unary braces := (agree_readUnary h braces).bind fun _ => agree_pure _
  pattern := agree_readPattern h
  single := agree_readSinglePattern h
  block := agree_readBlock (h.mono (Nat.le_refl _) (Nat.le_succ w))
  early := agree_readEarly h
  item := agree_readItem h

/-- Two levels take a token: an expression may begin with a block, and it takes the braces of the
block to come to what it holds. -/
theorem AgreeBelow.deepen_deepen (h : AgreeBelow w (w + 1) g g') :
    AgreeBelow (w + 1) (w + 2) g.deepen.deepen g'.deepen.deepen := by
  have hdeepen := h.deepen
  have hlower : AgreeBelow w (w + 1) g.deepen g'.deepen :=
    hdeepen.mono (Nat.le_succ w) (Nat.le_refl _)
  exact { hlower.deepen with block := agree_readBlock hdeepen }

/-- Readers of two depths agree on all tokens that neither depth is too small for. -/
theorem agreeBelow_ofDepth {n m : Nat} (hn : 2 * w < n) (hm : 2 * w < m) :
    AgreeBelow w (w + 1) (ofDepth n) (ofDepth m) := by
  induction w generalizing n m with
  | zero =>
    obtain ⟨n, rfl⟩ : ∃ n', n = n' + 1 := ⟨n - 1, by omega⟩
    obtain ⟨m, rfl⟩ : ∃ m', m = m' + 1 := ⟨m - 1, by omega⟩
    have hnone {α : Type} {p q : Parser α} : Agree 0 p q :=
      fun ts hts => absurd hts (Nat.not_lt_zero _)
    have hempty : AgreeBelow 0 0 (ofDepth n) (ofDepth m) :=
      ⟨fun _ => hnone, fun _ => hnone, fun _ => hnone, hnone, hnone, hnone, hnone, hnone⟩
    exact ⟨fun _ => hnone, fun _ => hnone, fun _ => hnone, hnone, hnone, agree_readBlock hempty,
      hnone, hnone⟩
  | succ w ih =>
    obtain ⟨n, rfl⟩ : ∃ n', n = n' + 2 := ⟨n - 2, by omega⟩
    obtain ⟨m, rfl⟩ : ∃ m', m = m' + 2 := ⟨m - 2, by omega⟩
    exact (ih (by omega) (by omega)).deepen_deepen

end Depths

end Grammar

end CodecForge.Source
