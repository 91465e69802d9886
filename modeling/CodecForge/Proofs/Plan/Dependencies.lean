import CodecForge.Proofs.Plan.Instantiator

/-!
# Dependencies of plans

A plan has the dependency of the parameter that stands for one, if it calls a function with such a
parameter, and otherwise that of the type as a whole, unless it holds nothing.
-/

namespace CodecForge.Plan

open CodecForge.Schema CodecForge.Source CodecForge.Code

variable {d : TypeDecl} {s : Strategy} {t : Ty}

/-- What the codec of a type depends on: the parameter that the caller of the decoder supplies, or
what the type as a whole is declared to depend on. -/
inductive DependsOn (d : TypeDecl) (s : Strategy) : Ty → Prop
  | parameter {c : Construction} {p : Param} (hs : s = .instantiator) (hc : resolve d = .ok c)
      (hp : p ∈ c.params) (hdependency : p.isDependency = true) : DependsOn d s p.type
  | declared {text : String} {t : Ty} (htext : d.dependency = some text)
      (hread : Ty.parse? text = some t) (hvalue : Kind.of t ≠ .ok .void) : DependsOn d s t

/-- The dependency in a plan. -/
def CodecPlan.dependency? : CodecPlan → Option Ty
  | .instantiator plan => plan.dependency
  | .publicFields plan => plan.dependency
  | .polymorphic dependency => dependency
  | .singleton _ => none

/-! ### The type as a whole -/

theorem typeDependency_eq_some_iff {found : Option Ty} (h : typeDependency d = .ok found) :
    found = some t ↔
      ∃ text, d.dependency = some text ∧ Ty.parse? text = some t ∧ Kind.of t ≠ .ok .void := by
  unfold typeDependency at h
  split at h
  · next hnone =>
    cases h
    simp [hnone]
  · next text htext =>
    obtain ⟨t', hread, h⟩ := bind_eq_ok_iff.1 h
    rw [readType, readOr_eq_ok_iff] at hread
    simp only [htext, Option.some.injEq, exists_eq_left', hread]
    split at h
    · next hvoid =>
      cases h
      simp only [reduceCtorEq, false_iff, not_and, not_not]
      rintro rfl
      exact hvoid
    · next hvalue =>
      cases h
      simp only [Option.some.injEq, iff_self_and]
      rintro rfl
      exact hvalue

/-- Where no function is called, the codec depends on what the type does. -/
theorem dependsOn_iff_of_ne (hs : s ≠ .instantiator) :
    DependsOn d s t ↔
      ∃ text, d.dependency = some text ∧ Ty.parse? text = some t ∧ Kind.of t ≠ .ok .void := by
  constructor
  · rintro (⟨h, -, -, -⟩ | ⟨htext, hread, hvalue⟩)
    · exact absurd h hs
    · exact ⟨_, htext, hread, hvalue⟩
  · rintro ⟨text, htext, hread, hvalue⟩
    exact .declared htext hread hvalue

/-! ### Parameters -/

theorem dependency?_eq_some_iff {c : Construction} (hc : resolve d = .ok c) :
    c.dependency? = some t ↔ ∃ p ∈ c.params, p.isDependency = true ∧ p.type = t := by
  obtain ⟨choice, -, hmakes⟩ := exists_makes_of_resolve hc
  constructor
  · intro h
    obtain ⟨p, hp, rfl⟩ := Option.map_eq_some_iff.1 h
    exact ⟨p, List.mem_of_find?_eq_some hp, List.find?_some hp, rfl⟩
  · rintro ⟨p, hp, hdependency, rfl⟩
    exact dependency?_of_mem hmakes hp hdependency

/-- A construction with a dependency leaves no room for one of the type as a whole. -/
theorem independent_of_dependency? {c : Construction} (hc : resolve d = .ok c)
    (h : c.dependency?.isSome = true) : Independent d := by
  obtain ⟨choice, -, hmakes⟩ := exists_makes_of_resolve hc
  exact hmakes.independent ((dependency?_isSome_iff hmakes.params).1 h)

theorem Independent.not_declared (h : Independent d) {text : String}
    (htext : d.dependency = some text) (hread : Ty.parse? text = some t) :
    Kind.of t = .ok .void := by
  obtain ⟨t', hread', hvoid⟩ := h text htext
  rw [hread] at hread'
  cases hread'
  exact hvoid

/-- A codec depends on nothing if nothing is declared to be a dependency. -/
theorem not_dependsOn (hparams : ∀ q ∈ declaredParams d, q.isDependency = false)
    (hnone : d.dependency = none) : ¬ DependsOn d s t := by
  rintro (⟨-, hc, hp, hdependency⟩ | ⟨htext, -, -⟩)
  · obtain ⟨q, hq, hqp⟩ := forall₂_exists_left (forall₂_of_resolve hc) hp
    rw [(resolveParam_eq_ok_iff.1 hqp).isDependency, hparams q hq] at hdependency
    cases hdependency
  · rw [hnone] at htext
    cases htext

theorem dependency_of_planInstantiator {plan : InstantiatorPlan}
    (h : planInstantiator d = .ok plan) :
    (plan.construction.dependency?.isSome = true ∧
      plan.dependency = plan.construction.dependency?) ∨
    plan.construction.dependency? = none ∧ typeDependency d = .ok plan.dependency := by
  obtain ⟨c, -, h⟩ := bind_eq_ok_iff.1 h
  obtain ⟨wire, -, h⟩ := bind_eq_ok_iff.1 h
  split at h
  · next t ht =>
    cases h
    exact .inl ⟨by rw [ht]; rfl, ht.symm⟩
  · next hnone =>
    obtain ⟨dependency, hdependency, h⟩ := bind_eq_ok_iff.1 h
    cases h
    exact .inr ⟨hnone, hdependency⟩

theorem dependency_eq_some_iff_of_planInstantiator {plan : InstantiatorPlan}
    (h : planInstantiator d = .ok plan) :
    plan.dependency = some t ↔ DependsOn d .instantiator t := by
  have hc := (planInstantiator_ok h).1
  obtain ⟨hsome, heq⟩ | ⟨hnone, htype⟩ := dependency_of_planInstantiator h
  · have hindependent := independent_of_dependency? hc hsome
    rw [heq, dependency?_eq_some_iff hc]
    constructor
    · rintro ⟨p, hp, hdependency, rfl⟩
      exact .parameter rfl hc hp hdependency
    · rintro (⟨-, hc', hp, hdependency⟩ | ⟨htext, hread, hvalue⟩)
      · cases hc.symm.trans hc'
        exact ⟨_, hp, hdependency, rfl⟩
      · exact absurd (hindependent.not_declared htext hread) hvalue
  · rw [typeDependency_eq_some_iff htype]
    constructor
    · rintro ⟨text, htext, hread, hvalue⟩
      exact .declared htext hread hvalue
    · rintro (⟨-, hc', hp, hdependency⟩ | ⟨htext, hread, hvalue⟩)
      · cases hc.symm.trans hc'
        rw [(dependency?_eq_some_iff hc).2 ⟨_, hp, hdependency, rfl⟩] at hnone
        cases hnone
      · exact ⟨_, htext, hread, hvalue⟩

/-! ### Plans -/

/-- A plan has exactly the dependency that its codec is bound to have. -/
theorem dependency?_of_select {plan : CodecPlan} (h : select d s = .ok plan) :
    plan.dependency? = some t ↔ DependsOn d s t := by
  cases s with
  | instantiator =>
    obtain ⟨plan, hplan, h⟩ := bind_eq_ok_iff.1 h
    cases h
    exact dependency_eq_some_iff_of_planInstantiator hplan
  | publicFields =>
    obtain ⟨plan, hplan, h⟩ := bind_eq_ok_iff.1 h
    cases h
    obtain ⟨paths, -, hplan⟩ := bind_eq_ok_iff.1 hplan
    obtain ⟨dependency, hdependency, hplan⟩ := bind_eq_ok_iff.1 hplan
    cases hplan
    rw [dependsOn_iff_of_ne (by decide), ← typeDependency_eq_some_iff hdependency]
    rfl
  | polymorphic =>
    simp only [select] at h
    split at h
    · obtain ⟨dependency, hdependency, h⟩ := bind_eq_ok_iff.1 h
      cases h
      rw [dependsOn_iff_of_ne (by decide), ← typeDependency_eq_some_iff hdependency]
      rfl
    · cases h
  | singleton =>
    obtain ⟨dependency, hdependency, h⟩ := bind_eq_ok_iff.1 h
    rw [dependsOn_iff_of_ne (by decide), ← typeDependency_eq_some_iff hdependency]
    split at h
    · cases h
    · next hnone =>
      obtain ⟨path, -, h⟩ := bind_eq_ok_iff.1 h
      cases h
      simp only [CodecPlan.dependency?, reduceCtorEq, false_iff]
      rintro rfl
      exact hnone rfl

end CodecForge.Plan
