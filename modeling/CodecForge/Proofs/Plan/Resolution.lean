import CodecForge.Proofs.Plan.Parameters
import CodecForge.Proofs.Plan.Returns

/-!
# Which function makes a value

What `resolve` decides, told from the declaration.  The first factory that is none ends the
resolution.  Otherwise there is one choice at most, of a constructor, of a factory or of the value
written out with its fields; it succeeds exactly if it can be called as it is declared, and it fails
for the first reason why it cannot.
-/

namespace CodecForge.Plan

open CodecForge.Schema CodecForge.Source

variable {d : TypeDecl} {m : MakerDecl} {p : Param} {choice : Option MakerDecl}
  {c : Construction} {f : Fault}

/-! ### Choice -/

/-- What is chosen, if anything: the only marked constructor or factory, else the only constructor,
and where there is none, the value written out. -/
inductive Chosen (d : TypeDecl) : Option MakerDecl → Prop
  | marked {m : MakerDecl} (h : markedMakers d = [m]) : Chosen d (some m)
  | sole {m : MakerDecl} (h : markedMakers d = []) (hsole : d.constructors = [m]) :
      Chosen d (some m)
  | literal (h : markedMakers d = []) (hnone : d.constructors = []) : Chosen d none

/-- The parameters as they are declared; those of the value written out are its fields. -/
def givenParams (d : TypeDecl) : Option MakerDecl → List ParamDecl
  | some m => m.params
  | none => (instanceFields d.toLevel).map fieldParam

/-- What messages call that which is chosen. -/
def calledName : Option MakerDecl → String
  | some m => m.name
  | none => "struct literal"

/-- What is called for a choice, with the type of its error. -/
inductive Callee (d : TypeDecl) : Option MakerDecl → Maker → Option Ty → Prop
  | literal : Callee d none .structLiteral none
  | function {m : MakerDecl} {name : Ident} {failure : Option Ty}
      (hname : Ident.parse? m.name = some name) (hreturns : Returns d m failure) :
      Callee d (some m) (.associated name) failure

/-- Why what is chosen cannot be called. -/
inductive CalleeFault (d : TypeDecl) : Option MakerDecl → Cause → Prop
  | name {m : MakerDecl} (hname : Ident.parse? m.name = none) :
      CalleeFault d (some m) (.invalidType m.name)
  | returns {m : MakerDecl} {name : Ident} {cause : Cause}
      (hname : Ident.parse? m.name = some name) (h : ReturnFault d m cause) :
      CalleeFault d (some m) cause

/-- The construction is the call of what is chosen, with the parameters that it declares. -/
structure Makes (d : TypeDecl) (choice : Option MakerDecl) (c : Construction) : Prop where
  callee : Callee d choice c.maker c.failure
  single : ((givenParams d choice).filter ParamDecl.isDependency).length ≤ 1
  params : List.Forall₂ (Typed d) (givenParams d choice) c.params
  independent : (∃ q ∈ givenParams d choice, q.isDependency = true) → Independent d

/-- The first reason why there is no such construction. -/
inductive MakeFault (d : TypeDecl) (choice : Option MakerDecl) : Cause → Prop
  | callee {cause : Cause} (h : CalleeFault d choice cause) : MakeFault d choice cause
  | dependencies (hcallee : ∃ maker failure, Callee d choice maker failure)
      (h : 1 < ((givenParams d choice).filter ParamDecl.isDependency).length) :
      MakeFault d choice (.multipleDependencyParameters (calledName choice))
  | param {before after : List ParamDecl} {q : ParamDecl} {cause : Cause}
      (hcallee : ∃ maker failure, Callee d choice maker failure)
      (hsingle : ((givenParams d choice).filter ParamDecl.isDependency).length ≤ 1)
      (hparams : givenParams d choice = before ++ q :: after)
      (hbefore : ∀ q' ∈ before, ∃ p, Typed d q' p) (h : ParamFault d q cause) :
      MakeFault d choice cause
  | dependency {cause : Cause} (hcallee : ∃ maker failure, Callee d choice maker failure)
      (hsingle : ((givenParams d choice).filter ParamDecl.isDependency).length ≤ 1)
      (htyped : ∀ q ∈ givenParams d choice, ∃ p, Typed d q p)
      (hdependency : ∃ q ∈ givenParams d choice, q.isDependency = true)
      (h : DependencyFault d cause) : MakeFault d choice cause

/-- The construction for a choice, before the dependencies are compared. -/
def make (d : TypeDecl) : Option MakerDecl → Except Fault Construction
  | some m => resolveMaker d m
  | none => resolveLiteral d

theorem chooseMaker_of_chosen (h : Chosen d choice) : chooseMaker d = make d choice := by
  unfold chooseMaker
  cases h with
  | marked h => rw [h]; rfl
  | sole h hsole => rw [h, hsole]; rfl
  | literal h hnone => rw [h, hnone]; rfl

theorem make_eq_ok_iff : make d choice = .ok c ↔ Callee d choice c.maker c.failure ∧
    resolveParams d (calledName choice) (givenParams d choice) = .ok c.params := by
  obtain ⟨maker, params, failure⟩ := c
  cases choice with
  | none =>
    simp only [make, resolveLiteral, bind_eq_ok_iff]
    constructor
    · rintro ⟨params', hparams, h⟩
      cases h
      exact ⟨.literal, hparams⟩
    · rintro ⟨hcallee, hparams⟩
      cases hcallee
      exact ⟨params, hparams, rfl⟩
  | some m =>
    simp only [make, resolveMaker, bind_eq_ok_iff, readIdent, readOr_eq_ok_iff,
      failureType_eq_ok_iff]
    constructor
    · rintro ⟨name, hname, failure', hreturns, params', hparams, h⟩
      cases h
      exact ⟨.function hname hreturns, hparams⟩
    · rintro ⟨hcallee, hparams⟩
      cases hcallee with
      | function hname hreturns => exact ⟨_, hname, failure, hreturns, params, hparams, rfl⟩

theorem make_eq_error_iff : make d choice = .error f ↔
    (∃ cause, CalleeFault d choice cause ∧ f = fault d cause) ∨
      (∃ maker failure, Callee d choice maker failure) ∧
        resolveParams d (calledName choice) (givenParams d choice) = .error f := by
  cases choice with
  | none =>
    simp only [make, resolveLiteral, bind_eq_error_iff]
    constructor
    · rintro (h | ⟨_, _, h⟩)
      · exact .inr ⟨⟨_, _, .literal⟩, h⟩
      · cases h
    · rintro (⟨cause, h, -⟩ | ⟨-, h⟩)
      · cases h
      · exact .inl h
  | some m =>
    simp only [make, resolveMaker, bind_eq_error_iff, readIdent, readOr_eq_ok_iff,
      readOr_eq_error_iff, failureType_eq_ok_iff, failureType_eq_error_iff]
    constructor
    · rintro (⟨hname, rfl⟩ | ⟨name, hname, ⟨cause, h, rfl⟩ | ⟨failure, hreturns, h | ⟨_, _, h⟩⟩⟩)
      · exact .inl ⟨_, .name hname, rfl⟩
      · exact .inl ⟨cause, .returns hname h, rfl⟩
      · exact .inr ⟨⟨_, _, .function hname hreturns⟩, h⟩
      · cases h
    · rintro (⟨cause, h, rfl⟩ | ⟨⟨maker, failure, hcallee⟩, h⟩)
      · cases h with
        | name hname => exact .inl ⟨hname, rfl⟩
        | returns hname h => exact .inr ⟨_, hname, .inl ⟨cause, h, rfl⟩⟩
      · cases hcallee with
        | function hname hreturns => exact .inr ⟨_, hname, .inr ⟨failure, hreturns, .inl h⟩⟩

/-! ### Resolution -/

/-- The parameters of a construction have a dependency among them if the declared ones do. -/
theorem dependency?_isSome_iff {declared : List ParamDecl}
    (h : List.Forall₂ (Typed d) declared c.params) :
    c.dependency?.isSome = true ↔ ∃ q ∈ declared, q.isDependency = true := by
  rw [Construction.dependency?, Option.isSome_map, List.find?_isSome]
  constructor
  · rintro ⟨p, hp, hdependency⟩
    obtain ⟨q, hq, hqp⟩ := forall₂_exists_left h hp
    exact ⟨q, hq, hqp.isDependency ▸ hdependency⟩
  · rintro ⟨q, hq, hdependency⟩
    obtain ⟨p, hp, hqp⟩ := forall₂_exists_right h hq
    exact ⟨p, hp, hqp.isDependency.trans hdependency⟩

theorem resolve_of_factories (h : ∀ m ∈ d.factories, ∀ cause, ¬ FactoryDefect d m cause) :
    resolve d = chooseMaker d >>= settle d := by
  have hchecked : d.factories.forM (checkFactory d) = .ok () := by
    rw [forM_eq_map_mapM, map_eq_ok_iff]
    obtain ⟨units, hunits⟩ := exists_mapM_eq_ok_iff.2 fun m hm =>
      ⟨(), checkFactory_eq_ok_iff.2 (h m hm)⟩
    exact ⟨units, hunits, rfl⟩
  unfold resolve
  rw [hchecked]
  rfl

theorem resolve_of_defect {before after : List MakerDecl} {cause : Cause}
    (hfactories : d.factories = before ++ m :: after)
    (hbefore : ∀ m' ∈ before, ∀ cause', ¬ FactoryDefect d m' cause')
    (h : FactoryDefect d m cause) : resolve d = .error (fault d cause) := by
  have hchecked : d.factories.forM (checkFactory d) = .error (fault d cause) := by
    rw [forM_eq_map_mapM, map_eq_error_iff, mapM_eq_error_iff]
    refine ⟨before, m, after, hfactories, fun m' hm' => ⟨(), ?_⟩, ?_⟩
    · exact checkFactory_eq_ok_iff.2 (hbefore m' hm')
    · exact checkFactory_eq_error_iff.2 ⟨cause, h, rfl⟩
  unfold resolve
  rw [hchecked]
  rfl

theorem make_settle_eq_ok_iff : make d choice >>= settle d = .ok c ↔ Makes d choice c := by
  simp only [bind_eq_ok_iff, settle_eq_ok_iff, make_eq_ok_iff, resolveParams_eq_ok_iff]
  constructor
  · rintro ⟨_, ⟨hcallee, hsingle, hparams⟩, rfl, hindependent⟩
    rw [dependency?_isSome_iff hparams] at hindependent
    exact ⟨hcallee, hsingle, hparams, hindependent⟩
  · rintro ⟨hcallee, hsingle, hparams, hindependent⟩
    rw [← dependency?_isSome_iff hparams] at hindependent
    exact ⟨c, ⟨hcallee, hsingle, hparams⟩, rfl, hindependent⟩

theorem make_settle_eq_error_iff : make d choice >>= settle d = .error f ↔
    ∃ cause, MakeFault d choice cause ∧ f = fault d cause := by
  simp only [bind_eq_error_iff, settle_eq_error_iff, make_eq_error_iff, make_eq_ok_iff,
    resolveParams_eq_error_iff, resolveParams_eq_ok_iff]
  constructor
  · rintro ((⟨cause, h, rfl⟩ | ⟨hcallee, ⟨hmany, rfl⟩ |
        ⟨hsingle, before, q, after, hparams, hbefore, cause, h, rfl⟩⟩) |
      ⟨c, ⟨hcallee, hsingle, hparams⟩, hdependency, cause, h, rfl⟩)
    · exact ⟨cause, .callee h, rfl⟩
    · exact ⟨_, .dependencies hcallee hmany, rfl⟩
    · exact ⟨cause, .param hcallee hsingle hparams hbefore h, rfl⟩
    · rw [dependency?_isSome_iff hparams] at hdependency
      have htyped := exists_forall₂_iff.1 ⟨_, hparams⟩
      exact ⟨cause, .dependency ⟨_, _, hcallee⟩ hsingle htyped hdependency h, rfl⟩
  · rintro ⟨cause, h, rfl⟩
    cases h with
    | callee h => exact .inl (.inl ⟨cause, h, rfl⟩)
    | dependencies hcallee h => exact .inl (.inr ⟨hcallee, .inl ⟨h, rfl⟩⟩)
    | param hcallee hsingle hparams hbefore h =>
      exact .inl (.inr ⟨hcallee, .inr ⟨hsingle, _, _, _, hparams, hbefore, cause, h, rfl⟩⟩)
    | dependency hcallee hsingle htyped hdependency h =>
      obtain ⟨maker, failure, hcallee⟩ := hcallee
      obtain ⟨params, hparams⟩ := exists_forall₂_iff.2 htyped
      refine .inr ⟨⟨maker, params, failure⟩, ⟨hcallee, hsingle, hparams⟩, ?_, cause, h, rfl⟩
      exact (dependency?_isSome_iff hparams).2 hdependency

theorem checked_of_resolve (h : resolve d = .ok c) :
    ∀ m ∈ d.factories, ∀ cause, ¬ FactoryDefect d m cause := by
  obtain ⟨_, hchecked, -⟩ := bind_eq_ok_iff.1 h
  rw [forM_eq_map_mapM, map_eq_ok_iff] at hchecked
  obtain ⟨units, hunits, -⟩ := hchecked
  intro m hm
  obtain ⟨_, hm⟩ := exists_mapM_eq_ok_iff.1 ⟨units, hunits⟩ m hm
  exact checkFactory_eq_ok_iff.1 hm

theorem chosen_of_chooseMaker (h : chooseMaker d = .ok c) : ∃ choice, Chosen d choice := by
  unfold chooseMaker at h
  split at h
  · next hmarked => exact ⟨_, .marked hmarked⟩
  · next hmarked hnone => exact ⟨_, .literal hmarked hnone⟩
  · next hmarked hsole => exact ⟨_, .sole hmarked hsole⟩
  · cases h
  · cases h

theorem exists_makes_of_resolve (h : resolve d = .ok c) :
    ∃ choice, Chosen d choice ∧ Makes d choice c := by
  rw [resolve_of_factories (checked_of_resolve h)] at h
  obtain ⟨c', hchoose, -⟩ := bind_eq_ok_iff.1 h
  obtain ⟨choice, hchosen⟩ := chosen_of_chooseMaker hchoose
  rw [chooseMaker_of_chosen hchosen] at h
  exact ⟨choice, hchosen, make_settle_eq_ok_iff.1 h⟩

theorem Makes.length_dependencies (h : Makes d choice c) :
    (c.params.filter Param.isDependency).length ≤ 1 := by
  have hfiltered := List.rel_filter (p := ParamDecl.isDependency) (q := Param.isDependency)
    (fun q p hqp => by simp only [hqp.isDependency]) h.params
  rw [← hfiltered.length_eq]
  exact h.single

theorem dependency?_of_mem (h : Makes d choice c) (hp : p ∈ c.params)
    (hdependency : p.isDependency = true) : c.dependency? = some p.type := by
  -- one parameter at most is a dependency, so it is the one that is found first
  have hlength := h.length_dependencies
  have hmem : p ∈ c.params.filter Param.isDependency := List.mem_filter.2 ⟨hp, hdependency⟩
  rw [Construction.dependency?, ← List.head?_filter]
  match c.params.filter Param.isDependency, hlength, hmem with
  | [p'], _, hmem => rw [List.mem_singleton.1 hmem]; rfl

/-- How the function that makes a value is chosen, and with which parameters it is called.  The
first factory that is none decides, whatever else is declared.  Without any, several marked
functions are an error, and so are several constructors of which none is marked; in all other cases
one thing is chosen, and its construction succeeds exactly as it is declared and fails for the first
reason that there is.  A construction has one dependency at most, and then the type as a whole has
none. -/
theorem resolve_decides (d : TypeDecl) :
    (∀ before m after cause, d.factories = before ++ m :: after →
      (∀ m' ∈ before, ∀ cause', ¬ FactoryDefect d m' cause') → FactoryDefect d m cause →
      resolve d = .error (fault d cause)) ∧
    ((∀ m ∈ d.factories, ∀ cause, ¬ FactoryDefect d m cause) →
      (1 < (markedMakers d).length → resolve d =
        .error (fault d (.multipleInstantiators ((markedMakers d).map MakerDecl.name)))) ∧
      (markedMakers d = [] → 1 < d.constructors.length →
        resolve d = .error (fault d .multipleConstructors)) ∧
      ∀ choice, Chosen d choice →
        (∀ c, resolve d = .ok c ↔ Makes d choice c) ∧
        ∀ f, resolve d = .error f ↔ ∃ cause, MakeFault d choice cause ∧ f = fault d cause) ∧
    ∀ c, resolve d = .ok c →
      (c.params.filter Param.isDependency).length ≤ 1 ∧
      (∀ p ∈ c.params, p.isDependency = true → c.dependency? = some p.type ∧ Independent d) ∧
      ((∀ p ∈ c.params, p.isDependency = false) → c.dependency? = none) := by
  refine ⟨fun before m after cause => resolve_of_defect, fun hfactories => ?_, fun c hc => ?_⟩
  · rw [resolve_of_factories hfactories]
    refine ⟨fun hmany => ?_, fun hmarked hmany => ?_, fun choice hchosen => ?_⟩
    · have hchoose : chooseMaker d =
          .error (fault d (.multipleInstantiators ((markedMakers d).map MakerDecl.name))) := by
        unfold chooseMaker
        split <;> simp_all
      rw [hchoose]
      rfl
    · have hchoose : chooseMaker d = .error (fault d .multipleConstructors) := by
        unfold chooseMaker
        split <;> simp_all
      rw [hchoose]
      rfl
    · rw [chooseMaker_of_chosen hchosen]
      exact ⟨fun c => make_settle_eq_ok_iff, fun f => make_settle_eq_error_iff⟩
  · obtain ⟨choice, -, hmakes⟩ := exists_makes_of_resolve hc
    refine ⟨hmakes.length_dependencies, fun p hp hdependency => ?_, fun hvalues => ?_⟩
    · refine ⟨dependency?_of_mem hmakes hp hdependency, hmakes.independent ?_⟩
      obtain ⟨q, hq, hqp⟩ := forall₂_exists_left hmakes.params hp
      exact ⟨q, hq, hqp.isDependency ▸ hdependency⟩
    · rw [Construction.dependency?, List.find?_eq_none.2 fun p hp => by simp [hvalues p hp]]
      rfl

/-- A factory that can fail, and that takes a dependency. -/
def measured : MakerDecl where
  name := "measured"
  params := [{ name := "x" }, { name := "units", type := some "Units", isDependency := true }]
  returns := some "Result<Self, RangeError>"

/-- A type with a factory and two constructors, neither of which is marked. -/
def point : TypeDecl where
  name := "Point"
  fields := [{ name := "x", type := "i32" }]
  constructors := [{ name := "origin" }, { name := "unit" }]
  factories := [measured]

/-- The same type with a second factory, which takes a receiver. -/
def pointRebuilt : TypeDecl :=
  { point with factories := [measured, { name := "rebuild", isStatic := false }] }

theorem resolve_decides_point :
    (∃ c, resolve point = .ok c ∧ Makes point (some measured) c ∧
      c.dependency?.isSome = true ∧ Independent point) ∧
    resolve pointRebuilt =
      .error (fault pointRebuilt (.invalidFactory "rebuild" .takesReceiver)) := by
  have hmeasured : ∀ d ∈ [point, pointRebuilt], ∀ cause, ¬ FactoryDefect d measured cause := by
    intro d hd
    have hchecked : ∀ d ∈ [point, pointRebuilt], (checkFactory d measured).isOk = true := by
      decide +kernel
    obtain ⟨_, hok⟩ := exists_of_isOk (hchecked d hd)
    exact checkFactory_eq_ok_iff.1 hok
  constructor
  · obtain ⟨-, hresolve, hdependency⟩ := resolve_decides point
    obtain ⟨-, -, hchosen⟩ := hresolve
      (List.forall_mem_singleton.2 (hmeasured point List.mem_cons_self))
    obtain ⟨c, hc⟩ : ∃ c, resolve point = .ok c := exists_of_isOk (by decide +kernel)
    have hmakes := ((hchosen (some measured) (.marked rfl)).1 c).1 hc
    obtain ⟨p, hp, hqp⟩ : ∃ p ∈ c.params, Typed point _ p :=
      forall₂_exists_right hmakes.params (.tail _ (.head _))
    obtain ⟨htype, hindependent⟩ := (hdependency c hc).2.1 p hp hqp.isDependency
    exact ⟨c, hc, hmakes, by rw [htype]; rfl, hindependent⟩
  · obtain ⟨hdefect, -, -⟩ := resolve_decides pointRebuilt
    refine hdefect [measured] _ [] _ rfl ?_ (.receiver rfl)
    exact List.forall_mem_singleton.2 (hmeasured pointRebuilt (.tail _ (.head _)))

end CodecForge.Plan
