import CodecForge.Proofs.Source.Depth.Types

/-!
# How deep the readers of expressions reach

The readers of expressions hand down operands behind a token or in brackets, but for the block that
an expression may begin with: on blocks, the level below has to agree on as much.
-/

namespace CodecForge.Source

open CodecForge.Source.Parser

namespace Grammar

variable {w : Nat} {g g' : Grammar} (h : AgreeBelow w (w + 1) g g')

/-! ### Statements of control -/

section Control

include h in
theorem agree_readConditional (n : Nat) :
    Agree (w + 1) (g.readConditional n) (g'.readConditional n) := by
  induction n with
  | zero => exact agree_failure
  | succ n ih =>
    have helse : Agree w
        (seq [word "else", do if ← peek (beginsWord "if") then g.readConditional n else g.block])
        (seq [word "else",
          do if ← peek (beginsWord "if") then g'.readConditional n else g'.block]) :=
      (agree_word _).agree.seq (.seq (.branch ih.lower h.block.lower) agree_seq_nil)
    refine ((agree_word _).seq (.seq (h.expr _) (.seq h.block.lower ?_))).agree
    exact helse.when.seq agree_seq_nil

include h in
theorem agree_readLoop : Agree (w + 1) g.readLoop g'.readLoop := by
  have hblock := h.block.lower
  refine .branch ?_ (.branch ?_ (hblock.behindWord _))
  · exact ((agree_word _).seq (.seq (h.expr _) (.seq hblock agree_seq_nil))).agree
  · exact ((agree_word _).seq (.seq h.pattern (.seq (agree_word _).agree
      (.seq (h.expr _) (.seq hblock agree_seq_nil))))).agree

include h in
theorem agree_readLabelled : Agree (w + 1) g.readLabelled g'.readLabelled := by
  refine agree_lifetime.agree.bind fun _ => (agree_op _).bind fun _ => ?_
  refine .branch (h.block.bind fun _ => agree_pure _) ?_
  exact (agree_readLoop h).bind fun _ => agree_pure _

include h in
theorem agree_readClosure (braces : Braces) :
    Agree (w + 1) (g.readClosure braces) (g'.readClosure braces) := by
  have hfront : AgreeTaking (w + 1) (seq [when (beginsWord "for") readBinder, word? "const",
      word? "static", word? "async", word? "move", op "|"]) _ :=
    carries_readBinder.agree.when.seqTaking ((agree_word? _).seqTaking ((agree_word? _).seqTaking
      ((agree_word? _).seqTaking ((agree_word? _).seqTaking
        ((agree_sign (by decide)).seq agree_seq_nil)))))
  refine (hfront.bind fun _ => ?_).agree
  refine (Agree.separated ?_).bind fun _ => (agree_op _).bind fun _ => .branch ?_ ?_
  · have htype := (agree_op ":").seq (.seq (agree_typeTokens h .allowed) agree_seq_nil)
    exact (agree_readOuterAttributes h).lower.seq (.seq h.single (htype.when.seq agree_seq_nil))
  · refine Agree.bind ?_ fun _ => agree_pure _
    exact (agree_op _).seq (.seq (agree_typeTokens h _) (.seq h.block.lower agree_seq_nil))
  · exact (h.expr _).bind fun _ => agree_pure _

include h in
theorem agree_readFieldValue : Agree w g.readFieldValue g'.readFieldValue := by
  refine (agree_readOuterAttributes h).lower.bind fun _ => .branch ?_ (.branch ?_ ?_)
  · exact (agree_op _).bind fun _ => (h.expr _).when.bind fun _ => agree_pure _
  · exact agree_token.agree.bind fun _ => (agree_op _).bind fun _ =>
      (h.expr _).bind fun _ => agree_pure _
  · exact agree_ident.agree.bind fun _ => agree_pure _

include h in
theorem agree_readPathValue (braces : Braces) :
    Agree (w + 1) (g.readPathValue braces) (g'.readPathValue braces) := by
  refine (agree_readQualifiedPath h _).bind fun _ => .branch ?_ ?_
  · exact (agree_op _).bind fun _ => (agree_peek _).bind fun _ =>
      agree_anyGroup.agree.bind fun _ => agree_pure _
  · refine (agree_peek _).bind fun _ => .ite _ ?_ (agree_pure _)
    exact ((agree_readFieldValue h).commaList.grouped _).agree.bind fun _ => agree_pure _

include h in
theorem agree_readArrayValue : Agree w g.readArrayValue g'.readArrayValue := by
  refine .branch (agree_pure _) ((h.expr _).bind fun _ => .branch ?_ (.branch (agree_pure _) ?_))
  · exact (agree_op _).bind fun _ => (h.expr _).bind fun _ => agree_pure _
  · exact (agree_op _).bind fun _ => (h.expr _).commaList.bind fun _ => agree_pure _

include h in
theorem agree_readArm : Agree w g.readArm g'.readArm := by
  have hguard := (agree_word "if").agree.seq (.seq (h.expr .joined) agree_seq_nil)
  refine Agree.bind ?_ fun _ => h.early.bind fun _ => (agree_peek _).bind fun _ => .ite _ ?_ ?_
  · exact (agree_readOuterAttributes h).lower.seq (.seq h.pattern (hguard.when.seq
      ((agree_op _).seq agree_seq_nil)))
  · exact (agree_op? _).bind fun _ => agree_pure _
  · exact (agree_op _).bind fun _ => agree_pure _

include h in
theorem agree_readMatch : Agree (w + 1) g.readMatch g'.readMatch := by
  refine ((agree_word _).seq (.seq (h.expr _) (.seq ?_ agree_seq_nil))).agree
  exact (Agree.grouped _ ((agree_readArm h).many.bind fun _ => agree_pure _)).agree.lower

include h in
theorem agree_readJump (s : String) (braces : Braces) :
    Agree (w + 1) (g.readJump s braces) (g'.readJump s braces) := by
  refine ((agree_word _).bind fun _ => ?_).agree
  refine .ite _ (agree_lifetimeToken.when.bind ?value) ((agree_pure _).bind ?value)
  exact fun _ => .ite _ (agree_pure _) ((h.expr _).when.bind fun _ => agree_pure _)

end Control

/-! ### Operands -/

section Operands

theorem agree_readIndices : Agree w readIndices readIndices := by
  refine agree_token.agree.bind fun t => ?_
  cases t with
  | literal text => exact (agree_require _).bind fun _ => agree_pure _
  | _ => exact agree_failure

include h in
theorem agree_readMember : Agree (w + 1) g.readMember g'.readMember := by
  have harguments := ((h.expr .joined).commaList.grouped .paren).agree
  refine .branch (agree_word _).agree (.branch ?_ agree_literal)
  refine agree_ident.agree.bind fun _ => .branch ?_ (harguments.when.bind fun _ => agree_pure _)
  refine (agree_op _).bind fun _ => (agree_readAngled (agree_readArg h) _).bind fun _ => ?_
  exact harguments.bind fun _ => agree_pure _

include h in
theorem agree_readTrailers (n : Nat) (e : Spelled) :
    Agree (w + 1) (g.readTrailers n e) (g'.readTrailers n e) := by
  have hmember := agree_readMember h
  induction n generalizing e with
  | zero => exact agree_pure _
  | succ n ih =>
    refine .branch ?call ((agree_peek _).bind fun _ => .ite _ ?field (.branch ?index ?rest))
    case call => exact ((h.expr _).commaList.grouped _).agree.bind fun _ => ih _
    case field =>
      refine (agree_op _).bind fun _ => .branch ?_ (hmember.bind fun _ => ih _)
      exact agree_readIndices.bind fun _ => .ite _ (hmember.bind fun _ => ih _) (ih _)
    case index => exact ((h.expr _).grouped _).agree.bind fun _ => ih _
    case rest =>
      exact (agree_peek _).bind fun _ => .ite _ ((agree_op _).bind fun _ => ih _) (agree_pure _)

theorem agree_readDots : Agree w readDots readDots :=
  .branch ((agree_op _).bind fun _ => agree_pure _) ((agree_peek _).bind fun _ =>
    (agree_require _).bind fun _ => (agree_op _).bind fun _ => agree_pure _)

include h in
theorem agree_readBlockLike : Agree (w + 1) g.readBlockLike g'.readBlockLike := by
  refine .branch (.get fun _ => agree_readConditional h _) (.branch (agree_readMatch h) ?_)
  refine .branch (agree_readLoop h) (.branch h.block (.branch (agree_readLabelled h) ?_))
  exact agree_anyWord.agree.bind fun _ => h.block.bind fun _ => agree_pure _

variable {tail tail' : String → Speller} {bound bound' : Speller} {braces : Braces}
  (htail : ∀ dots, Agree (w + 1) (tail dots) (tail' dots)) (hbound : Agree (w + 1) bound bound')

include h htail in
theorem agree_readAtom : Agree (w + 1) (g.readAtom tail braces) (g'.readAtom tail' braces) := by
  have hplain {p q : Speller} (hp : Agree (w + 1) p q) :
      Agree (w + 1) (return ⟨← p, .plain⟩ : Parser Spelled) (return ⟨← q, .plain⟩) :=
    hp.bind fun _ => agree_pure _
  refine .branch (hplain agree_literal) (.branch (hplain ?_) (.branch ?_ ?_))
  · exact (agree_word _).agree.seq ((agree_word? _).seq (.seq h.block agree_seq_nil))
  · exact (agree_readBlockLike h).bind fun _ => agree_pure _
  refine .branch (agree_readClosure h _) (.branch (agree_readPathValue h _) ?_)
  refine .branch (hplain ((h.expr _).commaList.grouped _).agree) ?_
  refine .branch (hplain ((agree_readArrayValue h).grouped _).agree) ?_
  refine .branch (hplain (agree_readJump h _ _)) (.branch (hplain (agree_readJump h _ _)) ?_)
  refine .branch (hplain (agree_readJump h _ _)) (.branch (hplain (agree_readJump h _ _)) ?_)
  refine .branch ?_ (.branch (hplain (agree_word _).agree) agree_failure)
  exact agree_readDots.bind fun _ => (htail _).bind fun _ => agree_pure _

include h htail hbound in
theorem agree_readOperandWith :
    Agree (w + 1) (g.readOperandWith tail bound braces)
      (g'.readOperandWith tail' bound' braces) := by
  have hunary (s : Tokens) : Agree w (return ⟨s ++ (← g.unary braces), .plain⟩ : Parser Spelled)
      (return ⟨s ++ (← g'.unary braces), .plain⟩) := (h.unary _).bind fun _ => agree_pure _
  refine (agree_readOuterAttributes h).bind fun _ => ?_
  refine (agree_peek _).bind fun _ => (agree_peek _).bind fun _ => (agree_peek _).bind fun _ => ?_
  refine .ite _ ?reference (.ite _ ?sign (.ite _ ?condition ?atom))
  all_goals refine Agree.bind ?_ fun _ => agree_pure _
  case reference =>
    refine ((agree_sign (by decide)).bind fun _ => .branch ?_ ?_).agree
    · refine Agree.bind ((agree_word _).agree.seq (.seq ?_ agree_seq_nil)) fun _ => hunary _
      exact agree_token.agree.bind fun _ => agree_pure _
    · exact (agree_word? _).bind fun _ => hunary _
  case sign => exact (agree_token.bind fun _ => hunary _).agree
  case condition =>
    refine Agree.bind (AgreeTaking.agree ?_) fun _ => agree_pure _
    exact (agree_word _).seq (.seq h.pattern (.seq (agree_op _) (.seq hbound.lower agree_seq_nil)))
  case atom =>
    exact (agree_readAtom h htail).bind fun _ => .get fun _ => agree_readTrailers h _ _

end Operands

/-! ### Operators -/

section Operators

/-- The readers of operators agree, if they are given as much fuel. -/
structure OperatorsAgree (w : Nat) (g g' : Grammar) (n : Nat) : Prop where
  grow : ∀ braces base e, Agree w (growFor g n braces base e) (growFor g' n braces base e)
  right : ∀ braces binding, Agree w (rightFor g n braces binding) (rightFor g' n braces binding)
  climb : ∀ braces binding e,
    Agree w (climbFor g n braces binding e) (climbFor g' n braces binding e)
  tail : ∀ braces dots, Agree w (rangeTailFor g n braces dots) (rangeTailFor g' n braces dots)
  bound : Agree w (boundFor g n) (boundFor g' n)

include h in
theorem agree_growFor {n : Nat} (ih : OperatorsAgree (w + 1) g g' n) (braces : Braces)
    (base : Binding) (e : Spelled) :
    Agree (w + 1) (growFor g (n + 1) braces base e) (growFor g' (n + 1) braces base e) := by
  rw [growFor, growFor]
  refine .ite _ (agree_pure _) (.get fun ts => ?_)
  cases nextOperator? ts with
  | some o =>
    refine .ite _ (agree_pure _) ((agree_require _).bind fun _ => (agree_op _).bind fun _ => ?_)
    exact (ih.right _ _).bind fun _ => ih.grow _ _ _
  | none =>
    refine (agree_peek _).bind fun _ => .ite _ ?_ ?_
    · exact (agree_op _).bind fun _ => (ih.right _ _).bind fun _ => ih.grow _ _ _
    refine (agree_peek _).bind fun _ => .ite _ ?_ ?_
    · exact agree_readDots.bind fun _ => (ih.tail _ _).bind fun _ => ih.grow _ _ _
    refine (agree_peek _).bind fun _ => .ite _ ?_ (agree_pure _)
    refine ((agree_word _).bind fun _ => (agree_typeTokens h _).bind fun _ => ?_).agree
    exact (ih.grow _ _ _).lower

theorem agree_climbFor {n : Nat} (ih : OperatorsAgree w g g' n) (braces : Braces)
    (binding : Binding) (e : Spelled) :
    Agree w (climbFor g (n + 1) braces binding e) (climbFor g' (n + 1) braces binding e) := by
  rw [climbFor, climbFor]
  refine .get fun _ => .ite _ (.get fun _ => (ih.grow _ _ _).bind fun _ => ?_) (agree_pure _)
  exact .get fun _ => .ite _ (agree_pure _) (ih.climb _ _ _)

include h in
theorem operatorsAgree (n : Nat) : OperatorsAgree (w + 1) g g' n := by
  induction n with
  | zero =>
    refine ⟨fun _ _ _ => ?_, fun _ _ => ?_, fun _ _ _ => ?_, fun _ _ => ?_, ?_⟩
    · rw [growFor, growFor]
      exact agree_pure _
    · rw [rightFor, rightFor]
      exact agree_failure
    · rw [climbFor, climbFor]
      exact agree_pure _
    · rw [rangeTailFor, rangeTailFor]
      exact agree_failure
    · rw [boundFor, boundFor]
      exact agree_failure
  | succ n ih =>
    refine ⟨agree_growFor h ih, fun _ _ => ?_, agree_climbFor ih, fun _ _ => ?_, ?_⟩
    · rw [rightFor, rightFor]
      exact (agree_readOperandWith h (ih.tail _) ih.bound).bind fun _ =>
        (ih.climb _ _ _).bind fun _ => agree_pure _
    · rw [rangeTailFor, rangeTailFor]
      exact (agree_peek _).bind fun _ => .ite _ (agree_pure _) (ih.right _ _)
    · rw [boundFor, boundFor]
      exact (agree_readOperandWith h (ih.tail _) ih.bound).bind fun _ =>
        (ih.grow _ _ _).bind fun _ => agree_pure _

theorem agree_operatorFuel : Agree w operatorFuel operatorFuel := .get fun _ => agree_pure _

include h in
theorem agree_readUnary (braces : Braces) :
    Agree (w + 1) (g.readUnary braces) (g'.readUnary braces) :=
  agree_operatorFuel.bind fun n =>
    agree_readOperandWith h ((operatorsAgree h n).tail _) (operatorsAgree h n).bound

include h in
theorem agree_readExpr (braces : Braces) :
    Agree (w + 1) (g.readExpr braces) (g'.readExpr braces) :=
  agree_operatorFuel.bind fun n =>
    (agree_readUnary h braces).bind fun _ => (operatorsAgree h n).grow _ _ _

include h in
theorem agree_readEarly : Agree (w + 1) g.readEarly g'.readEarly := by
  refine agree_operatorFuel.bind fun n => (agree_readOuterAttributes h).bind fun _ => ?_
  refine .branch (Agree.bind ?_ fun _ => agree_pure _) ?_
  · refine (agree_readBlockLike h).bind fun _ => .branch ?_ (agree_pure _)
    exact (agree_readTrailers h _ _).bind fun _ => (operatorsAgree h n).grow _ _ _
  · exact (agree_readExpr h _).bind fun _ => agree_pure _

end Operators

end Grammar

end CodecForge.Source
