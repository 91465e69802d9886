import CodecForge.Proofs.Code.Batch
import CodecForge.Proofs.Eval.Outcomes

/-!
# Bodies read from their tokens

The body of a codec is cut into statements and the expression at its end: a statement ends in a
semicolon, and a loop in its braces.  What these do one after the other, each as its tokens say, is
what the codec is said to do.
-/

namespace CodecForge.Eval

open CodecForge.Schema CodecForge.Source CodecForge.Plan CodecForge.Code CodecForge.Wire

/-! ### Cutting -/

/-- The token ends a statement: the braces of a loop, and a semicolon otherwise. -/
def ends (loop : Bool) : Token → Bool
  | .mark ';' _ => !loop
  | .group .brace _ => loop
  | _ => false

/-- The word that a loop begins with. -/
def isFor : Token → Bool
  | .ident "for" => true
  | _ => false

/-- A loop comes next. -/
def isLoop (ts : Tokens) : Bool := ts.head?.any isFor

/-- The tokens go on, to their last, with what ends no statement. -/
def goesOn (loop : Bool) (ts : Tokens) : Bool := ts.all fun t => !ends loop t

/-- The number of tokens of the statement that comes next. -/
def statementLength (ts : Tokens) : Nat :=
  (ts.takeWhile fun t => !ends (isLoop ts) t).length + 1

/-- The statements in a sequence, the last of which may be an expression. -/
def cut : Tokens → List Tokens
  | [] => []
  | t :: ts =>
    let n := statementLength (t :: ts)
    (t :: ts).take n :: cut ((t :: ts).drop n)
termination_by ts => ts.length
decreasing_by simp [statementLength]

/-- A statement from its first token to that which ends it. -/
def IsStatement (ts : Tokens) : Prop :=
  ∃ front last, ts = front ++ [last] ∧ goesOn (isLoop ts) front = true ∧
    ends (isLoop ts) last = true

/-- An expression: no token of it ends a statement. -/
def IsExpression (ts : Tokens) : Prop := ts ≠ [] ∧ goesOn (isLoop ts) ts = true

theorem cut_append {ts : Tokens} (h : IsStatement ts) (rest : Tokens) :
    cut (ts ++ rest) = ts :: cut rest := by
  obtain ⟨front, last, rfl, hfront, hlast⟩ := h
  have hloop : isLoop (front ++ [last] ++ rest) = isLoop (front ++ [last]) := by
    cases front <;> rfl
  have hlength : statementLength (front ++ [last] ++ rest) = (front ++ [last]).length := by
    have htake : ((front ++ [last] ++ rest).takeWhile fun t => !ends (isLoop (front ++ [last])) t) =
        front := by
      rw [List.append_assoc, List.takeWhile_append_of_pos (List.all_eq_true.1 hfront)]
      simp [hlast]
    rw [statementLength, hloop, htake, List.length_append, List.length_singleton]
  have hcut : ∀ ts, ts ≠ [] →
      cut ts = ts.take (statementLength ts) :: cut (ts.drop (statementLength ts)) := by
    intro ts hne
    cases ts with
    | nil => exact absurd rfl hne
    | cons t ts => rw [cut]
  rw [hcut _ (by simp), hlength, List.take_left, List.drop_left]

theorem cut_of_isExpression {ts : Tokens} (h : IsExpression ts) : cut ts = [ts] := by
  obtain ⟨hne, h⟩ := h
  have hlength : ts.length ≤ statementLength ts := by
    rw [statementLength, List.takeWhile_eq_self_iff.2 (List.all_eq_true.1 h)]
    exact Nat.le_succ _
  cases ts with
  | nil => exact absurd rfl hne
  | cons t ts => rw [cut, List.take_of_length_le hlength, List.drop_of_length_le hlength, cut]

theorem cut_ne_nil {ts : Tokens} (hne : ts ≠ []) : cut ts ≠ [] := by
  cases ts with
  | nil => exact absurd rfl hne
  | cons t ts =>
    rw [cut]
    exact List.cons_ne_nil _ _

/-! ### Running in turn -/

section Run

variable {μ : Type → Type} [Monad μ] {α β : Type}
  {read : Tokens → Option (Locals → μ Locals)} {last : Tokens → Option (Locals → μ β)}

/-- What statements do one after the other, and the expression behind them. -/
def body? (read : Tokens → Option (Locals → μ Locals)) (last : Tokens → Option (Locals → μ β)) :
    List Tokens → Option (Locals → μ β)
  | [] => none
  | [ts] => last ts
  | ts :: rest => do
    let effect ← read ts
    let after ← body? read last rest
    return fun locals => effect locals >>= after

/-- In front of anything else, the tokens are cut and read to the given effect. -/
def Does (read : Tokens → Option (Locals → μ Locals)) (last : Tokens → Option (Locals → μ β))
    (ts : Tokens) (effect : Locals → μ Locals) : Prop :=
  ∀ rest, rest ≠ [] → body? read last (cut (ts ++ rest)) =
    (body? read last (cut rest)).map fun after locals => effect locals >>= after

theorem Does.nil [LawfulMonad μ] : Does read last [] pure := by
  intro rest _
  simp

theorem Does.one {ts : Tokens} {effect : Locals → μ Locals} (hts : IsStatement ts)
    (h : read ts = some effect) : Does read last ts effect := by
  intro rest hne
  obtain ⟨next, others, hrest⟩ := List.exists_cons_of_ne_nil (cut_ne_nil hne)
  rw [cut_append hts, hrest, body?.eq_3 _ _ _ _ (List.cons_ne_nil _ _), h]
  cases body? read last (next :: others) <;> rfl

theorem Does.append [LawfulMonad μ] {ts ts' : Tokens} {effect effect' : Locals → μ Locals}
    (h : Does read last ts effect) (h' : Does read last ts' effect') :
    Does read last (ts ++ ts') fun locals => effect locals >>= effect' := by
  intro rest hne
  rw [List.append_assoc, h _ (List.append_ne_nil_of_right_ne_nil _ hne), h' _ hne, Option.map_map]
  simp [Function.comp_def]

theorem Does.flatMap [LawfulMonad μ] {tokens : α → Tokens} {effect : Locals → α → μ Locals}
    {steps : List α}
    (h : ∀ step ∈ steps, Does read last (tokens step) fun locals => effect locals step) :
    Does read last (steps.flatMap tokens) fun locals => steps.foldlM effect locals := by
  induction steps with
  | nil => exact .nil
  | cons step steps ih =>
    rw [List.forall_mem_cons] at h
    exact h.1.append (ih h.2)

theorem Does.body {ts expression : Tokens} {effect : Locals → μ Locals} {outcome : Locals → μ β}
    (h : Does read last ts effect) (hexpression : IsExpression expression)
    (hlast : last expression = some outcome) :
    body? read last (cut (ts ++ expression)) = some fun locals => effect locals >>= outcome := by
  rw [h _ hexpression.1, cut_of_isExpression hexpression, body?, hlast]
  rfl

end Run

/-! ### Types -/

/-- No semicolon stands in the tokens outside of brackets. -/
def Plain (ts : Tokens) : Prop := goesOn false ts = true

instance (ts : Tokens) : Decidable (Plain ts) := inferInstanceAs (Decidable (_ = _))

/-- The tokens of the type in a statement of an encoder. -/
def encodeType : EncodeStep → Tokens
  | .call _ _ => []
  | .borrow _ type | .borrowField _ type _ | .borrowSlot _ type _ | .write _ type _ => type.tokens

/-- The tokens of the type in a statement of a decoder. -/
def decodeType : DecodeStep → Tokens
  | .read _ type _ => type.tokens
  | .startDefault type => type.tokens
  | .takeDependency | .assign _ _ => []

theorem goesOn_append (loop : Bool) (ts ts' : Tokens) :
    goesOn loop (ts ++ ts') = (goesOn loop ts && goesOn loop ts') := List.all_append

theorem goesOn_dotted (path : List Ident) : goesOn false (dotted path) = true := by
  induction path with
  | nil => rfl
  | cons i path ih =>
    cases path with
    | nil => rfl
    | cons i' path => exact ih

theorem isExpression_success (value : Tokens) : IsExpression (success value) :=
  ⟨List.cons_ne_nil _ _, rfl⟩

theorem isStatement_semicolon {front : Tokens} (hloop : isLoop (front ++ Token.words ";") = false)
    (h : goesOn false front = true) : IsStatement (front ++ Token.words ";") :=
  ⟨front, .mark ';' false, rfl, by rwa [hloop], by rw [hloop]; rfl⟩

theorem isStatement_question {front : Tokens} (hloop : isLoop (front ++ Token.words "? ;") = false)
    (h : goesOn false front = true) : IsStatement (front ++ Token.words "? ;") := by
  have hend : front ++ Token.words "? ;" = front ++ Token.words "?" ++ Token.words ";" := by
    rw [List.append_assoc]
    rfl
  rw [hend] at hloop ⊢
  refine isStatement_semicolon hloop ?_
  rw [goesOn_append, h]
  rfl

/-! ### Encoders -/

section Encode

variable (runtime : Path) (h : Host) (self : Value) (type : Option Ty) (dependency : Option Value)

/-- What is handed to a registry that writes. -/
def writtenArgs : Tokens :=
  inRuntime runtime "AsAny :: as_any" ++ [Token.parens (Token.words "& * * value")] ++
    Token.words ", writer ," ++ erasedDependency ++ Token.words ","

/-- The effect of a statement that has the registry write the instance, with a dependency of the
given type; the tokens are those from the name of a base on. -/
def handedOn? (ts : Tokens) : Option (Locals → Writer Locals) :=
  match ts.reverse with
  | .mark ';' false :: .mark '?' false :: .group .paren args :: .mark '>' false :: base =>
    if sameText args (writtenArgs runtime) then
      some fun locals => do
        h.registry.encode (baseName h base.reverse) (unboxed self) (erased h type dependency)
        return locals
    else none
  | _ => none

variable (c : SpelledCodecs) (slots : List Slot)

/-- The effect of a statement of an encoder, which may have the registry write the instance. -/
def encoderStatement? (ts : Tokens) : Option (Locals → Writer Locals) :=
  match ts with
  | .ident "self" :: .mark '.' false :: .ident "registry" :: .mark '.' false ::
      .ident "serialize" :: .mark ':' true :: .mark ':' false :: .mark '<' false ::
      .ident "dyn" :: rest => handedOn? runtime h self type dependency rest
  | _ => encodeStatement? runtime c h slots self ts

theorem encoderStatement?_step (step : EncodeStep) :
    encoderStatement? runtime h self type dependency c slots
        (step.tokens (Marshaller.ofRuntime runtime)) =
      some fun locals => encodeStep c.marshalling h slots self locals step := by
  rw [← encodeStatement?_tokens runtime]
  cases step with
  | write transfer type binding =>
    cases transfer with
    | scalar s => cases s <;> rfl
    | elements s len => rfl
    | marshalled => rfl
  | _ => rfl

theorem encoderStatement?_registry (base : Path) :
    encoderStatement? runtime h self type dependency c slots
        ((EncodeBody.registry base).tokens runtime (Marshaller.ofRuntime runtime)) =
      some fun locals => do
        h.registry.encode (baseName h base.tokens) (unboxed self) (erased h type dependency)
        return locals := by
  let last := Token.words ">" ++ [Token.parens (writtenArgs runtime)] ++ Token.words "? ;"
  have hreverse : (base.tokens ++ last).reverse = .mark ';' false :: .mark '?' false ::
      .group .paren (writtenArgs runtime) :: .mark '>' false :: base.tokens.reverse := by
    rw [List.reverse_append]
    rfl
  have htokens : (EncodeBody.registry base).tokens runtime (Marshaller.ofRuntime runtime) =
      Token.words "self . registry . serialize :: < dyn" ++ (base.tokens ++ last) := by
    simp only [EncodeBody.tokens, last, writtenArgs, List.append_assoc]
  rw [htokens]
  show handedOn? runtime h self type dependency (base.tokens ++ last) = _
  simp only [handedOn?, hreverse, sameText_self, if_true, List.reverse_reverse]

/-- Each statement of an encoder ends where its tokens do. -/
theorem isStatement_encodeStep {step : EncodeStep} (hruntime : Plain runtime.tokens)
    (hplain : Plain (encodeType step)) :
    IsStatement (step.tokens (Marshaller.ofRuntime runtime)) := by
  cases step with
  | call binding method => exact isStatement_semicolon rfl rfl
  | borrow binding type =>
    replace hplain : goesOn false type.tokens = true := hplain
    refine isStatement_semicolon rfl ?_
    simp only [borrowHead, goesOn_append, hplain]
    rfl
  | borrowField binding type path =>
    replace hplain : goesOn false type.tokens = true := hplain
    refine isStatement_semicolon rfl ?_
    simp only [borrowHead, goesOn_append, goesOn_dotted, hplain]
    rfl
  | borrowSlot binding type slot =>
    replace hplain : goesOn false type.tokens = true := hplain
    refine isStatement_semicolon rfl ?_
    simp only [borrowHead, goesOn_append, hplain]
    rfl
  | write transfer type binding =>
    cases transfer with
    | scalar s => cases s <;> exact isStatement_semicolon rfl rfl
    | elements s len =>
      exact ⟨Token.words "for __element in" ++ [binding.token] ++ Token.words ". iter" ++
        [Token.parens []], _, rfl, rfl, rfl⟩
    | marshalled =>
      replace hplain : goesOn false type.tokens = true := hplain
      replace hruntime : goesOn false runtime.tokens = true := hruntime
      refine isStatement_question rfl ?_
      simp only [inRuntime, goesOn_append, hplain, hruntime]
      rfl

theorem isStatement_registry {base : Path} (hbase : Plain base.tokens) :
    IsStatement ((EncodeBody.registry base).tokens runtime (Marshaller.ofRuntime runtime)) := by
  replace hbase : goesOn false base.tokens = true := hbase
  refine isStatement_question rfl ?_
  simp only [goesOn_append, hbase]
  rfl

/-- The tokens of the types in the body of an encoder. -/
def encodeTypes : EncodeBody → List Tokens
  | .steps steps => steps.map encodeType
  | .registry base => [base.tokens]

/-- The expression at the end of an encoder gives the unit. -/
def done? (ts : Tokens) : Option (Locals → Writer Unit) :=
  if sameText ts (success [Token.parens []]) then some fun _ => pure () else none

/-- What the code of an encoder does, of which the tokens are those in front of the success. -/
def encoder? (ts : Tokens) : Option (Writer Unit) :=
  (body? (encoderStatement? runtime h self type dependency c slots) done?
    (cut (ts ++ success [Token.parens []]))).map fun run => run []

/-- The tokens of an encoder do what the encoder is said to do. -/
theorem encoder?_tokens {unit : CodecUnit} (hruntime : Plain runtime.tokens)
    (hplain : ∀ ts ∈ encodeTypes unit.encode, Plain ts) :
    encoder? runtime h self unit.dependency dependency c (unitSlots unit)
        (unit.encode.tokens runtime (Marshaller.ofRuntime runtime)) =
      some (encodeUnit c.marshalling h unit self dependency) := by
  have hdone : done? (success [Token.parens []]) = some fun _ => pure () := by
    rw [done?, sameText_self]
    rfl
  have hbody {ts : Tokens} {effect : Locals → Writer Locals} (hdoes :
      Does (encoderStatement? runtime h self unit.dependency dependency c (unitSlots unit))
        done? ts effect) :
      encoder? runtime h self unit.dependency dependency c (unitSlots unit) ts =
        some (effect [] >>= fun _ => pure ()) := by
    rw [encoder?, hdoes.body (isExpression_success _) hdone]
    rfl
  cases hencode : unit.encode with
  | steps steps =>
    rw [hencode] at hplain
    rw [EncodeBody.tokens, hbody (.flatMap fun step hstep =>
      .one (isStatement_encodeStep runtime hruntime (List.forall_mem_map.1 hplain step hstep))
        (encoderStatement?_step runtime h self unit.dependency dependency c (unitSlots unit) step)),
      encodeUnit, hencode]
    rfl
  | registry base =>
    rw [hencode] at hplain
    rw [hbody (.one (isStatement_registry runtime (hplain _ (List.mem_singleton_self _)))
      (encoderStatement?_registry runtime h self unit.dependency dependency c _ base)), encodeUnit,
      hencode]
    simp

end Encode

/-! ### Decoders -/

section Decode

variable (runtime : Path) (h : Host) (type : Option Ty) (dependency : Option Value)
  (c : SpelledCodecs)

theorem isStatement_fill {type : Ty} (hplain : Plain type.tokens) (s : Scalar) (len : Expr)
    (binding : Ident) : IsStatement (fillTokens type s len binding) := by
  replace hplain : goesOn false type.tokens = true := hplain
  simp only [fillTokens, ← List.append_assoc]
  refine isStatement_semicolon rfl ?_
  simp only [goesOn_append, hplain]
  rfl

theorem isStatement_slots (s : Scalar) (binding : Ident) :
    IsStatement (slotsTokens s binding) :=
  ⟨Token.words "for __slot in" ++ [binding.token] ++ Token.words ". iter_mut" ++
    [Token.parens []], _, rfl, rfl, rfl⟩

/-- Each statement of a decoder ends where its tokens do. -/
theorem isStatement_decodeStep {step : DecodeStep} (hruntime : Plain runtime.tokens)
    (hplain : Plain (decodeType step))
    (hone : ∀ s len type binding, step ≠ .read (.elements s len) type binding) :
    IsStatement (step.tokens runtime (Marshaller.ofRuntime runtime)) := by
  cases step with
  | read transfer type binding =>
    replace hplain : goesOn false type.tokens = true := hplain
    cases transfer with
    | scalar s =>
      refine isStatement_semicolon rfl ?_
      cases s <;> rfl
    | elements s len => exact absurd rfl (hone s len type binding)
    | marshalled =>
      replace hruntime : goesOn false runtime.tokens = true := hruntime
      refine isStatement_question rfl ?_
      simp only [inRuntime, goesOn_append, hplain, hruntime]
      rfl
  | takeDependency => exact isStatement_question rfl rfl
  | startDefault type =>
    replace hplain : goesOn false type.tokens = true := hplain
    refine isStatement_semicolon rfl ?_
    simp only [goesOn_append, hplain]
    rfl
  | assign path binding =>
    refine isStatement_semicolon rfl ?_
    simp only [goesOn_append, goesOn_dotted]
    rfl

/-- The tokens of a step of a decoder are statements that do what is meant by it. -/
theorem does_decodeStep {β : Type} {last : Tokens → Option (Locals → Reader β)} {step : DecodeStep}
    (hruntime : Plain runtime.tokens) (hplain : Plain (decodeType step)) :
    Does (decodeStatement? runtime c h dependency) last
      (step.tokens runtime (Marshaller.ofRuntime runtime)) fun locals =>
        decodeStep c.marshalling h dependency locals step := by
  by_cases hone : ∀ s len type binding, step ≠ .read (.elements s len) type binding
  · exact .one (isStatement_decodeStep runtime hruntime hplain hone)
      (decodeStatement?_tokens runtime c h dependency hone)
  · push Not at hone
    obtain ⟨s, len, type, binding, rfl⟩ := hone
    have hfill : Does (decodeStatement? runtime c h dependency) last _ _ :=
      .one (isStatement_fill hplain s len binding)
        (decodeStatement?_fill runtime c h dependency type s len binding)
    have hslots : Does (decodeStatement? runtime c h dependency) last _ _ :=
      .one (isStatement_slots s binding) (decodeStatement?_slots runtime c h dependency s binding)
    have heffect : (fun locals => decodeStep c.marshalling h dependency locals
        (.read (.elements s len) type binding)) = fun (locals : Locals) => (do
          let locals := locals.bind binding.text
            (.list (List.replicate (c.length len.tokens) (slotDefault s)))
          let elems ← fillSlots (readScalar s) (elements (locals.value binding.text))
          return locals.update binding.text (.list elems)) := by
      funext locals
      simp [decodeStep, readValue, SpelledCodecs.marshalling, fillSlots_eq_decodeMany, elements]
    rw [DecodeStep.tokens, readTokens_elements, heffect]
    simpa only [pure_bind] using hfill.append hslots

/-- The outcome is spelled in full: no argument is missing, and only a function can fail. -/
def IsFull : Outcome → Prop
  | .make _ maker args fallible =>
    (∀ a ∈ args, a.2 ≠ .absent) ∧ (fallible = true → maker ≠ .structLiteral)
  | .assigned | .canonical _ => True

/-- The tokens of the type in an outcome. -/
def outcomeType : Outcome → Tokens
  | .make type _ _ _ => type.tokens
  | .assigned | .canonical _ => []

theorem isExpression_outcome {o : Outcome} (hfull : IsFull o) (hplain : Plain (outcomeType o)) :
    IsExpression (o.tokens runtime) := by
  cases o with
  | make type maker args fallible =>
    cases fallible with
    | false => exact isExpression_success (makeTokens type maker args)
    | true =>
      replace hplain : goesOn false type.tokens = true := hplain
      cases maker with
      | structLiteral => exact absurd rfl (hfull.2 rfl)
      | associated name =>
        refine ⟨List.cons_ne_nil _ _, ?_⟩
        have hloop : isLoop ((Outcome.make type (.associated name) args true).tokens runtime) =
          false := rfl
        rw [hloop]
        simp only [Outcome.tokens, if_true, makeTokens, goesOn_append, hplain]
        rfl
  | assigned => exact isExpression_success _
  | canonical instancePath => exact isExpression_success _

theorem isExpression_registry {base : Path} (hbase : Plain base.tokens) :
    IsExpression ((DecodeBody.registry base).tokens runtime (Marshaller.ofRuntime runtime)) := by
  replace hbase : goesOn false base.tokens = true := hbase
  refine ⟨List.cons_ne_nil _ _, ?_⟩
  have hloop : isLoop ((DecodeBody.registry base).tokens runtime (Marshaller.ofRuntime runtime)) =
    false := rfl
  rw [hloop]
  simp only [DecodeBody.tokens, goesOn_append, hbase]
  rfl

/-- The tokens of the types in the body of a decoder. -/
def decodeTypes : DecodeBody → List Tokens
  | .steps steps o => outcomeType o :: steps.map decodeType
  | .registry base => [base.tokens]

/-- The names of the parameters of the function that a decoder calls. -/
def calledNames : DecodeBody → List Ident
  | .steps _ o => (outcomeArgs o).map Prod.fst
  | .registry _ => []

/-- What the code of a decoder does; the parameters of the function that it calls have the given
names. -/
def decoder? (names : List Ident) (ts : Tokens) : Option (Reader Value) :=
  (body? (decodeStatement? runtime c h dependency) (outcome? runtime h type dependency names)
    (cut ts)).map fun run => run []

theorem outcomeArgs_of_isFull {o : Outcome} (hfull : IsFull o) :
    ∀ a ∈ outcomeArgs o, a.2 ≠ .absent := by
  cases o with
  | make type maker args fallible => exact hfull.1
  | assigned => exact List.forall_mem_nil _
  | canonical instancePath => exact List.forall_mem_nil _

/-- The tokens of a decoder do what the decoder is said to do. -/
theorem decoder?_tokens {unit : CodecUnit} (hruntime : Plain runtime.tokens)
    (hplain : ∀ ts ∈ decodeTypes unit.decode, Plain ts)
    (hfull : ∀ steps o, unit.decode = .steps steps o → IsFull o) :
    decoder? runtime h unit.dependency dependency c (calledNames unit.decode)
        (unit.decode.tokens runtime (Marshaller.ofRuntime runtime)) =
      some (decodeUnit c.marshalling h unit dependency) := by
  cases hdecode : unit.decode with
  | steps steps o =>
    rw [hdecode, decodeTypes, List.forall_mem_cons] at hplain
    have ho := hfull steps o hdecode
    have hdoes : Does (decodeStatement? runtime c h dependency)
        (outcome? runtime h unit.dependency dependency (calledNames (.steps steps o)))
        (steps.flatMap (DecodeStep.tokens runtime (Marshaller.ofRuntime runtime))) _ :=
      .flatMap fun step hstep =>
        does_decodeStep runtime h dependency c hruntime (List.forall_mem_map.1 hplain.2 step hstep)
    rw [decoder?, DecodeBody.tokens, hdoes.body (isExpression_outcome runtime ho hplain.1)
      (outcome?_tokens runtime h unit.dependency dependency (outcomeArgs_of_isFull ho)),
      decodeUnit, hdecode]
    rfl
  | registry base =>
    rw [hdecode] at hplain
    have hbase := hplain _ (List.mem_singleton_self _)
    rw [decoder?, cut_of_isExpression (isExpression_registry runtime hbase), body?,
      outcome?_registry, decodeUnit, hdecode]
    rfl

end Decode

/-! ### What is generated -/

/-- The unit of a plan gives each parameter its argument, and a value written out with its fields
cannot fail. -/
theorem isFull_of_ofPlan {d : TypeDecl} {s : Strategy} {plan : CodecPlan} {type : Path}
    {unit : CodecUnit} (hplan : select d s = .ok plan)
    (hunit : CodecUnit.ofPlan type plan = .ok unit) :
    ∀ steps o, unit.decode = .steps steps o → IsFull o := by
  intro steps o hdecode
  cases plan with
  | instantiator plan =>
    obtain rfl : Strategy.instantiator = s := strategy_of_select hplan
    obtain ⟨hresolve, hwire⟩ := planInstantiator_ok (select_instantiator_eq_ok_iff.1 hplan)
    obtain ⟨-, hsteps⟩ := ofInstantiator_ok hunit
    cases hsteps.symm.trans hdecode
    constructor
    · rw [arguments_eq_map hwire]
      refine List.forall_mem_map.2 fun p _ => ?_
      cases hp : p.isDependency <;> simp [argumentOf, hp]
    · obtain ⟨_, -, hmakes⟩ := exists_makes_of_resolve hresolve
      have hcallee := hmakes.callee
      intro hfallible hliteral
      rw [hliteral] at hcallee
      generalize plan.construction.failure = failure at hcallee hfallible
      cases hcallee
      cases hfallible
  | publicFields plan =>
    cases hunit
    cases hdecode
    trivial
  | polymorphic dependency =>
    cases hunit
    cases hdecode
  | singleton instancePath =>
    cases hunit
    cases hdecode
    trivial

/-- The two bodies that are generated for a type do, as their tokens say, what the unit of its plan
is said to do, where no semicolon stands outside of brackets in the types. -/
theorem generate_does {runtime : Path} {d : TypeDecl} {s : Strategy} {gen : Generated}
    (hg : (Generator.ofRuntime runtime).generate d s = .ok gen) (hruntime : Plain runtime.tokens) :
    ∃ type plan unit,
      readPath d d.pathText = .ok type ∧ select d s = .ok plan ∧
      CodecUnit.ofPlan type plan = .ok unit ∧
      ∀ (c : SpelledCodecs) (h : Host) (self : Value) (dependency : Option Value),
        ((∀ ts ∈ encodeTypes unit.encode, Plain ts) →
          encoder? runtime h self unit.dependency dependency c (unitSlots unit) gen.encode =
            some (encodeUnit c.marshalling h unit self dependency)) ∧
        ((∀ ts ∈ decodeTypes unit.decode, Plain ts) →
          decoder? runtime h unit.dependency dependency c (calledNames unit.decode) gen.decode =
            some (decodeUnit c.marshalling h unit dependency)) := by
  obtain ⟨frame, plan, unit, htype, hplan, hunit, hframe, hmarshaller, hencode, hdecode, -⟩ :=
    exists_unit_of_generate hg
  rw [Frame.encodeTokens, hframe, hmarshaller] at hencode
  rw [Frame.decodeTokens, hframe, hmarshaller] at hdecode
  refine ⟨frame.type, plan, unit, htype, hplan, hunit, fun c h self dependency => ⟨?_, ?_⟩⟩
  · intro hplain
    rw [hencode]
    exact encoder?_tokens runtime h self dependency c hruntime hplain
  · intro hplain
    rw [hdecode]
    exact decoder?_tokens runtime h dependency c hruntime hplain (isFull_of_ofPlan hplan hunit)

example : Plain defaultRuntime.tokens := by decide

end CodecForge.Eval
