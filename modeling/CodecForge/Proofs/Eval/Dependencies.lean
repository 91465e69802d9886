import CodecForge.Proofs.Code.Batch
import CodecForge.Proofs.Code.Nesting
import CodecForge.Proofs.Eval.Instantiator
import CodecForge.Proofs.Eval.PublicFields
import CodecForge.Proofs.Plan.Dependencies

/-!
# Codecs that need no dependency

A type that can be a part of others is decoded without a dependency, so its own codec must not look
for one.  The codec is nested exactly where it calls a function or assigns the public fields and
depends on nothing, and then a dependency that is missing is missed by the codec of a part.  A
decoder that does look for a dependency is given one of the type of the parameter that stands for
it.
-/

namespace CodecForge.Code

open CodecForge.Source CodecForge.Plan

/-! ### What a body looks for -/

/-- The statement looks for the dependency. -/
def DecodeStep.takesDependency : DecodeStep → Bool
  | .takeDependency => true
  | _ => false

/-- The argument is the dependency. -/
def Argument.isDependency : Argument → Bool
  | .dependency => true
  | _ => false

/-- The expression hands the dependency to the function that it calls. -/
def Outcome.passesDependency : Outcome → Bool
  | .make _ _ args _ => args.any fun a => a.2.isDependency
  | _ => false

/-- The body looks for the dependency by itself. -/
def DecodeBody.takesDependency : DecodeBody → Bool
  | .steps parts _ => parts.any DecodeStep.takesDependency
  | .registry _ => false

/-- The body does something with the dependency: it looks for it, or it passes it on to a function
or to the registry. -/
def DecodeBody.usesDependency : DecodeBody → Bool
  | .steps parts outcome => parts.any DecodeStep.takesDependency || outcome.passesDependency
  | .registry _ => true

/-- A unit has the dependency of its plan, and it is nested if there is none. -/
theorem CodecUnit.dependency_of_plan {type : Path} {plan : CodecPlan} {unit : CodecUnit}
    (h : CodecUnit.ofPlan type plan = .ok unit) :
    unit.dependency = plan.dependency? ∧
      (unit.isNestable = true ↔ (plan.strategy = .instantiator ∨ plan.strategy = .publicFields) ∧
        plan.dependency? = none) := by
  cases plan with
  | instantiator plan =>
    obtain ⟨fields, -, h⟩ := bind_eq_ok_iff.1 h
    cases h
    simp [CodecPlan.dependency?, CodecPlan.strategy]
  | publicFields plan =>
    cases h
    simp [CodecPlan.dependency?, CodecPlan.strategy, ofPublicFields]
  | polymorphic dependency =>
    cases h
    simp [CodecPlan.dependency?, CodecPlan.strategy, ofPolymorphic]
  | singleton instancePath =>
    cases h
    simp [CodecPlan.dependency?, CodecPlan.strategy, ofSingleton]

end CodecForge.Code

namespace CodecForge.Eval

open CodecForge.Schema CodecForge.Source CodecForge.Plan CodecForge.Code CodecForge.Wire

/-! ### Bodies of plans -/

section Bodies

variable {d : TypeDecl} {s : Strategy} {type : Path} {plan : CodecPlan} {unit : CodecUnit}

theorem takesDependency_decodeField (f : WireField) : (decodeField f).takesDependency = false := rfl

theorem any_takesDependency_map {α : Type} {step : α → DecodeStep} {l : List α}
    (h : ∀ a, (step a).takesDependency = false) :
    (l.map step).any DecodeStep.takesDependency = false := by
  simp [List.any_map, h]

theorem takesDependency_dependencySteps (c : Construction) :
    (dependencySteps c).any DecodeStep.takesDependency = c.dependency?.isSome := by
  unfold dependencySteps
  cases c.dependency?.isSome <;> rfl

/-- A codec that calls a function looks for the dependency if a parameter stands for it. -/
theorem takesDependency_ofInstantiator {plan : InstantiatorPlan}
    (h : ofInstantiator type plan = .ok unit) :
    unit.decode.takesDependency = plan.construction.dependency?.isSome := by
  rw [(ofInstantiator_ok h).2, DecodeBody.takesDependency, List.any_append,
    any_takesDependency_map takesDependency_decodeField, takesDependency_dependencySteps,
    Bool.false_or]

theorem takesDependency_ofPublicFields (type : Path) (plan : PublicFieldsPlan) :
    (ofPublicFields type plan).decode.takesDependency = false := by
  have hassign : ∀ part : WireField × List Ident,
      (DecodeStep.assign part.2 part.1.binding).takesDependency = false := fun _ => rfl
  have hread : ∀ part : WireField × List Ident,
      (decodeField part.1).takesDependency = false := fun _ => rfl
  simp only [ofPublicFields, DecodeBody.takesDependency, List.any_append, List.any_cons,
    any_takesDependency_map hread, any_takesDependency_map hassign]
  rfl

theorem passesDependency_of_plan {plan : InstantiatorPlan} (hplan : planInstantiator d = .ok plan)
    (hnone : plan.construction.dependency? = none) (fallible : Bool) :
    (Code.Outcome.make type plan.construction.maker
      (arguments plan.construction.params plan.wire) fallible).passesDependency = false := by
  rw [Outcome.passesDependency, arguments_eq_map (planInstantiator_ok hplan).2, List.any_map,
    List.any_eq_false]
  intro p hp
  cases hvalue : p.isDependency with
  | true =>
    have hsome := dependency?_isSome_of_mem hp hvalue
    rw [hnone] at hsome
    cases hsome
  | false => simp [argumentOf, hvalue, Argument.isDependency]

/-- A unit that is nested does nothing with the dependency. -/
theorem usesDependency_of_isNestable (hselect : select d s = .ok plan)
    (hunit : CodecUnit.ofPlan type plan = .ok unit) (h : unit.isNestable = true) :
    unit.decode.usesDependency = false := by
  obtain ⟨hstrategy, hnone⟩ := (CodecUnit.dependency_of_plan hunit).2.1 h
  cases plan with
  | instantiator plan =>
    cases strategy_of_select hselect
    have hplan := select_instantiator_eq_ok_iff.1 hselect
    have hdependency : plan.construction.dependency? = none := by
      obtain ⟨hsome, heq⟩ | ⟨hnone', -⟩ := dependency_of_planInstantiator hplan
      · rw [← heq, show plan.dependency = none from hnone] at hsome
        cases hsome
      · exact hnone'
    have htakes := takesDependency_ofInstantiator hunit
    rw [(ofInstantiator_ok hunit).2] at htakes ⊢
    rw [DecodeBody.takesDependency, hdependency, Option.isSome_none] at htakes
    rw [DecodeBody.usesDependency, htakes, passesDependency_of_plan hplan hdependency]
    rfl
  | publicFields plan =>
    cases hunit
    have htakes := takesDependency_ofPublicFields type plan
    simp only [ofPublicFields, DecodeBody.takesDependency] at htakes
    simp only [ofPublicFields, DecodeBody.usesDependency, htakes]
    rfl
  | polymorphic dependency => simp [CodecPlan.strategy] at hstrategy
  | singleton instancePath => simp [CodecPlan.strategy] at hstrategy

/-- A unit looks for the dependency exactly if it stands for a call with a parameter for it.  This
is the only one of its kind, and the dependency has its type. -/
theorem takesDependency_iff (hselect : select d s = .ok plan)
    (hunit : CodecUnit.ofPlan type plan = .ok unit) :
    unit.decode.takesDependency = true ↔
      s = .instantiator ∧ ∃ c p, resolve d = .ok c ∧ c.params.filter Param.isDependency = [p] ∧
        unit.dependency = some p.type := by
  have hstrategy := strategy_of_select hselect
  have hdependency := (CodecUnit.dependency_of_plan hunit).1
  cases plan with
  | instantiator plan =>
    cases hstrategy
    have hplan := select_instantiator_eq_ok_iff.1 hselect
    have hresolve := (planInstantiator_ok hplan).1
    rw [takesDependency_ofInstantiator hunit, hdependency]
    constructor
    · intro h
      obtain ⟨choice, -, hmakes⟩ := exists_makes_of_resolve hresolve
      obtain ⟨t, ht⟩ := Option.isSome_iff_exists.1 h
      obtain ⟨p, hp, hmarked, rfl⟩ := (dependency?_eq_some_iff hresolve).1 ht
      refine ⟨rfl, plan.construction, p, hresolve, ?_, ?_⟩
      · have hmem : p ∈ plan.construction.params.filter Param.isDependency :=
          List.mem_filter.2 ⟨hp, hmarked⟩
        have hlength := hmakes.length_dependencies
        match plan.construction.params.filter Param.isDependency, hlength, hmem with
        | [p'], _, hmem => rw [List.mem_singleton.1 hmem]
      · exact (dependency_eq_some_iff_of_planInstantiator hplan).2
          (.parameter rfl hresolve hp hmarked)
    · rintro ⟨-, c, p, hc, hone, -⟩
      cases hresolve.symm.trans hc
      have hmem := List.mem_filter.1 (hone ▸ List.mem_singleton_self p)
      exact dependency?_isSome_of_mem hmem.1 hmem.2
  | publicFields plan =>
    cases hstrategy
    cases hunit
    simp [takesDependency_ofPublicFields, CodecPlan.strategy]
  | polymorphic dependency =>
    cases hstrategy
    cases hunit
    simp [ofPolymorphic, DecodeBody.takesDependency, CodecPlan.strategy]
  | singleton instancePath =>
    cases hstrategy
    cases hunit
    simp [ofSingleton, DecodeBody.takesDependency, CodecPlan.strategy]

end Bodies

/-! ### Readers that miss a dependency -/

section Missing

variable {m : Marshalling} {h : Host} {α β : Type}

/-- Where the reader misses a dependency, the codec of a part has missed it. -/
def MissedByPart (m : Marshalling) (r : Reader α) : Prop :=
  ∀ i owner i', r i = .error (.missingDependency owner) i' →
    ∃ type j, m.decode type j = .error (.missingDependency owner) i'

namespace MissedByPart

variable {r : Reader α}

theorem pure (a : α) : MissedByPart m (Pure.pure a : Reader α) := by
  intro i owner i' hrun
  cases hrun

theorem throw {e : CodecError} (he : ∀ owner, e ≠ .missingDependency owner) :
    MissedByPart m (MonadExcept.throw e : Reader α) := by
  intro i owner i' hrun
  cases hrun
  exact absurd rfl (he owner)

theorem get : MissedByPart m (MonadState.get : Reader Input) := by
  intro i owner i' hrun
  cases hrun

theorem set (i : Input) : MissedByPart m (MonadStateOf.set i : Reader PUnit) := by
  intro i owner i' hrun
  cases hrun

theorem bind {f : α → Reader β} (hr : MissedByPart m r) (hf : ∀ a, MissedByPart m (f a)) :
    MissedByPart m (r >>= f) := by
  intro i owner i'' hrun
  obtain hfirst | ⟨a, i', -, hsecond⟩ := exists_of_bind_eq_error hrun
  · exact hr i owner i'' hfirst
  · exact hf a i' owner i'' hsecond

theorem map (hr : MissedByPart m r) (f : α → β) : MissedByPart m (do return f (← r)) :=
  hr.bind fun a => .pure (f a)

theorem foldlM {σ : Type} {f : σ → α → Reader σ} {l : List α}
    (hf : ∀ a ∈ l, ∀ x, MissedByPart m (f x a)) (x : σ) : MissedByPart m (l.foldlM f x) := by
  induction l generalizing x with
  | nil => exact .pure x
  | cons a l ih =>
    rw [List.forall_mem_cons] at hf
    rw [List.foldlM_cons]
    exact (hf.1 x).bind fun y => ih hf.2 y

end MissedByPart

theorem missedByPart_bytes (n : Nat) : MissedByPart m (Reader.bytes n) := by
  refine .bind .get fun input => ?_
  dsimp only
  split
  · exact (MissedByPart.set _).bind fun _ => .pure _
  · exact .throw nofun

theorem missedByPart_bits (w : Width) : MissedByPart m (Reader.bits w) :=
  (missedByPart_bytes w.bytes).map ofLittleEndian

theorem missedByPart_readScalar (s : Scalar) : MissedByPart m (readScalar s) := by
  cases s with
  | bool =>
    refine .map (.bind .get fun input => (missedByPart_bits .w8).bind fun n => ?_) Value.bool
    split
    · exact .pure false
    · exact .pure true
    · exact .throw nofun
  | int32 => exact ((missedByPart_bits .w32).map (intOfBits true .w32)).map Value.integer

theorem missedByPart_decodeMany {r : Reader α} (hr : MissedByPart m r) (n : Nat) :
    MissedByPart m (decodeMany r n) := by
  induction n with
  | zero => exact .pure []
  | succ n ih => exact hr.bind fun a => ih.map (a :: ·)

theorem missedByPart_readValue (type : Ty) (transfer : Transfer) :
    MissedByPart m (readValue m type transfer) := by
  cases transfer with
  | scalar s => exact missedByPart_readScalar s
  | elements s len => exact (missedByPart_decodeMany (missedByPart_readScalar s) _).map Value.list
  | marshalled => exact fun i owner i' hrun => ⟨type, i, hrun⟩

/-- All statements but the one that looks for the dependency do without it. -/
theorem missedByPart_decodeStep {step : DecodeStep} (hstep : step.takesDependency = false)
    (dependency : Option Value) (locals : Locals) :
    MissedByPart m (decodeStep m h dependency locals step) := by
  cases step with
  | read transfer type binding =>
    exact (missedByPart_readValue type transfer).map fun v => locals.bind binding.text v
  | takeDependency => cases hstep
  | startDefault type => exact .pure _
  | assign path binding => exact .pure _

theorem missedByPart_outcomeValue (locals : Locals) (outcome : Code.Outcome) :
    MissedByPart m (outcomeValue h locals outcome) := by
  cases outcome with
  | make type maker args fallible =>
    rw [outcomeValue]
    split
    · exact .pure _
    · exact .throw nofun
  | assigned => exact .pure _
  | canonical instancePath => exact .pure _

theorem decodeStep_congr {step : DecodeStep} (hstep : step.takesDependency = false)
    (dependency dependency' : Option Value) (locals : Locals) :
    decodeStep m h dependency locals step = decodeStep m h dependency' locals step := by
  cases step with
  | takeDependency => cases hstep
  | read transfer type binding => rfl
  | startDefault type => rfl
  | assign path binding => rfl

theorem foldlM_decodeStep_congr {steps : List DecodeStep}
    (hsteps : ∀ step ∈ steps, step.takesDependency = false) (dependency dependency' : Option Value)
    (locals : Locals) :
    steps.foldlM (decodeStep m h dependency) locals =
      steps.foldlM (decodeStep m h dependency') locals := by
  induction steps generalizing locals with
  | nil => rfl
  | cons step steps ih =>
    rw [List.forall_mem_cons] at hsteps
    rw [List.foldlM_cons, List.foldlM_cons, decodeStep_congr hsteps.1 dependency dependency']
    exact bind_congr fun locals' => ih hsteps.2 locals'

/-- The decoder does nothing with a dependency: it has no use for it in its code, it does the same
whatever dependency is supplied, and one that is missing is missed by the codec of a part. -/
structure NeedsNoDependency (unit : CodecUnit) : Prop where
  unused : unit.decode.usesDependency = false
  same (m : Marshalling) (h : Host) (dependency : Option Value) :
    decodeUnit m h unit dependency = decodeUnit m h unit none
  missed (m : Marshalling) (h : Host) : MissedByPart m (decodeUnit m h unit none)

theorem needsNoDependency_of_unused {unit : CodecUnit} (h : unit.decode.usesDependency = false) :
    NeedsNoDependency unit := by
  cases hdecode : unit.decode with
  | registry base =>
    rw [hdecode] at h
    cases h
  | steps steps outcome =>
    have hsteps : ∀ step ∈ steps, step.takesDependency = false := by
      rw [hdecode, DecodeBody.usesDependency, Bool.or_eq_false_iff, List.any_eq_false] at h
      simpa using h.1
    refine ⟨h, fun m host dependency => ?_, fun m host => ?_⟩
    · simp only [decodeUnit, hdecode, decodeSteps]
      rw [foldlM_decodeStep_congr hsteps dependency none]
    · simp only [decodeUnit, hdecode, decodeSteps]
      exact (MissedByPart.foldlM (fun step hstep locals =>
        missedByPart_decodeStep (hsteps step hstep) none locals) []).bind fun locals =>
          missedByPart_outcomeValue locals outcome

end Missing

/-! ### Generated codecs -/

/-- A codec holds the implementation that nests its type exactly if it calls a function or assigns
the public fields and depends on nothing; and then its decoder has no use for a dependency, and
the type that stands for none is its dependency.  A decoder looks for a dependency exactly if a
parameter stands for it, and the dependency of the codec is the type of this parameter. -/
theorem nested_needs_none {g : Generator} {d : TypeDecl} {s : Strategy} {gen : Generated}
    (h : g.generate d s = .ok gen) :
    ∃ (frame : Frame) (unit : CodecUnit),
      (readPath d d.pathText = .ok frame.type ∧ frame.runtime = g.runtime ∧
        frame.marshaller = g.marshaller ∧ gen.tokens = frame.tokens unit ∧
        gen.decode = frame.decodeTokens unit ∧
        ∀ t, unit.dependency = some t ↔ DependsOn d s t) ∧
      (frame.nestingTokens <:+: gen.tokens ↔
        (s = .instantiator ∨ s = .publicFields) ∧ ∀ t, ¬ DependsOn d s t) ∧
      (frame.nestingTokens <:+: gen.tokens →
        frame.dependencyTokens unit = frame.rt "NoDependency" ∧ NeedsNoDependency unit) ∧
      (unit.decode.takesDependency = true ↔
        s = .instantiator ∧ ∃ c p, resolve d = .ok c ∧ c.params.filter Param.isDependency = [p] ∧
          unit.dependency = some p.type ∧ frame.dependencyTokens unit = p.type.tokens) := by
  obtain ⟨frame, plan, unit, htype, hselect, hunit, hruntime, hmarshaller, -, hdecode, htokens⟩ :=
    exists_unit_of_generate h
  obtain ⟨hdependency, hnestable⟩ := CodecUnit.dependency_of_plan hunit
  have hdepends : ∀ t, unit.dependency = some t ↔ DependsOn d s t := fun t => by
    rw [hdependency, dependency?_of_select hselect]
  refine ⟨frame, unit, ⟨htype, hruntime, hmarshaller, htokens, hdecode, hdepends⟩, ?_, ?_, ?_⟩
  · rw [htokens, Frame.nestingTokens_isInfix_iff, hnestable, strategy_of_select hselect,
      ← hdependency, Option.eq_none_iff_forall_ne_some]
    exact and_congr_right fun _ => forall_congr' fun t => not_congr (hdepends t)
  · rw [htokens, Frame.nestingTokens_isInfix_iff]
    intro hnested
    refine ⟨?_, needsNoDependency_of_unused (usesDependency_of_isNestable hselect hunit hnested)⟩
    rw [Frame.dependencyTokens, hdependency, (hnestable.1 hnested).2]
  · rw [takesDependency_iff hselect hunit]
    refine and_congr_right fun _ => exists_congr fun c => exists_congr fun p =>
      and_congr_right fun _ => and_congr_right fun _ => ⟨fun htype => ⟨htype, ?_⟩, And.left⟩
    rw [Frame.dependencyTokens, htype]

/-- A type that depends on nothing. -/
def gauge : TypeDecl where
  name := "Gauge"
  fields := [{ name := "level", type := "i32" }]

/-- The same type with a constructor that is given the units. -/
def gaugeInUnits : TypeDecl :=
  { gauge with
    constructors := [{
      name := "new"
      params := [
        { name := "level" },
        { name := "units", type := some "Units", isDependency := true }] }] }

/-- The first is nested, and the other looks for its units. -/
theorem nested_needs_none_gauge :
    (∃ (gen : Generated) (frame : Frame) (unit : CodecUnit),
      (Generator.ofRuntime defaultRuntime).generate gauge .instantiator = .ok gen ∧
      frame.nestingTokens <:+: gen.tokens ∧ gen.decode = frame.decodeTokens unit ∧
      NeedsNoDependency unit) ∧
    ∃ (gen : Generated) (frame : Frame) (unit : CodecUnit),
      (Generator.ofRuntime defaultRuntime).generate gaugeInUnits .instantiator = .ok gen ∧
      ¬ frame.nestingTokens <:+: gen.tokens ∧ gen.decode = frame.decodeTokens unit ∧
      unit.decode.takesDependency = true := by
  constructor
  · obtain ⟨gen, hgen⟩ := exists_of_isOk
      (x := (Generator.ofRuntime defaultRuntime).generate gauge .instantiator) (by decide +kernel)
    obtain ⟨frame, unit, ⟨-, -, -, -, hdecode, -⟩, hnested, hneeds, -⟩ := nested_needs_none hgen
    have hnesting : frame.nestingTokens <:+: gen.tokens :=
      hnested.2 ⟨.inl rfl, fun t => not_dependsOn (by decide) rfl⟩
    exact ⟨gen, frame, unit, hgen, hnesting, hdecode, (hneeds hnesting).2⟩
  · obtain ⟨gen, hgen⟩ := exists_of_isOk
      (x := (Generator.ofRuntime defaultRuntime).generate gaugeInUnits .instantiator)
      (by decide +kernel)
    obtain ⟨frame, unit, ⟨-, -, -, -, hdecode, hdepends⟩, hnested, -, htakes⟩ :=
      nested_needs_none hgen
    obtain ⟨c, hc, hone⟩ : ∃ c, resolve gaugeInUnits = .ok c ∧
        (c.params.filter Param.isDependency).length = 1 := by
      obtain ⟨c, hc⟩ := exists_of_isOk (x := resolve gaugeInUnits) (by decide +kernel)
      have hcount : ((resolve gaugeInUnits).map fun c =>
          (c.params.filter Param.isDependency).length).toOption = some 1 := by decide +kernel
      rw [hc] at hcount
      exact ⟨c, hc, Option.some.inj hcount⟩
    obtain ⟨p, hp⟩ := List.length_eq_one_iff.1 hone
    have hmem := List.mem_filter.1 (hp ▸ List.mem_singleton_self p)
    have hdepend : DependsOn gaugeInUnits .instantiator p.type := .parameter rfl hc hmem.1 hmem.2
    refine ⟨gen, frame, unit, hgen, fun hnesting => (hnested.1 hnesting).2 _ hdepend, hdecode, ?_⟩
    have hdependency := (hdepends _).2 hdepend
    refine htakes.2 ⟨rfl, c, p, hc, hp, hdependency, ?_⟩
    rw [Frame.dependencyTokens, hdependency]

end CodecForge.Eval
