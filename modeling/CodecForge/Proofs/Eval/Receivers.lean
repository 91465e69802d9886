import CodecForge.Proofs.Eval.Instantiator

/-!
# Receivers of constructors and factories

A generated decoder calls a constructor or a factory with one argument for each of its parameters.
That fits a declaration without a receiver.  A factory is refused where it has one; for constructors
the receiver is not looked at, so a constructor that takes one is called like any other.
-/

namespace CodecForge.Plan

open CodecForge.Schema CodecForge.Source

variable {d : TypeDecl} {receiverOf : MakerDecl → Bool}

/-- The constructor takes a receiver if it is told to. -/
def setReceiver (receiverOf : MakerDecl → Bool) (m : MakerDecl) : MakerDecl :=
  { m with isStatic := !receiverOf m }

/-- The type with the receivers of its constructors as they are told. -/
def withReceivers (d : TypeDecl) (receiverOf : MakerDecl → Bool) : TypeDecl :=
  { d with constructors := d.constructors.map (setReceiver receiverOf) }

/-! ### What resolution does not look at -/

theorem paramType_withReceivers (p : ParamDecl) :
    paramType (withReceivers d receiverOf) p = paramType d p := by
  have hfield : (findField (withReceivers d receiverOf) p.name).map Found.field =
      (findField d p.name).map Found.field := by
    rw [findField_field, findField_field]
    rfl
  unfold paramType
  cases p.type with
  | some text => rfl
  | none =>
    cases h : findField d p.name with
    | none =>
      rw [h, Option.map_none, Option.map_eq_none_iff] at hfield
      rw [hfield]
      rfl
    | some found =>
      rw [h, Option.map_some, Option.map_eq_some_iff] at hfield
      obtain ⟨found', hfound', hsame⟩ := hfield
      rw [hfound']
      simp only [hsame]
      rfl

theorem resolveParams_withReceivers (called : String) (params : List ParamDecl) :
    resolveParams (withReceivers d receiverOf) called params = resolveParams d called params := by
  have hparam : resolveParam (withReceivers d receiverOf) = resolveParam d := by
    funext p
    rw [resolveParam, paramType_withReceivers]
    rfl
  rw [resolveParams, hparam]
  rfl

theorem resolveMaker_withReceivers (m : MakerDecl) :
    resolveMaker (withReceivers d receiverOf) m = resolveMaker d m := by
  simp only [resolveMaker, resolveParams_withReceivers]
  rfl

theorem resolveLiteral_withReceivers :
    resolveLiteral (withReceivers d receiverOf) = resolveLiteral d := by
  simp only [resolveLiteral, resolveParams_withReceivers]
  rfl

/-- The declarations are called alike. -/
structure CalledAlike (m m' : MakerDecl) : Prop where
  name : m'.name = m.name
  params : m'.params = m.params
  returns : m'.returns = m.returns

theorem CalledAlike.resolveMaker_eq {m m' : MakerDecl} (h : CalledAlike m m') :
    resolveMaker d m' = resolveMaker d m := by
  simp only [resolveMaker, failureType, h.name, h.params, h.returns]

theorem forall₂_setReceiver (ms : List MakerDecl) :
    List.Forall₂ CalledAlike ms (ms.map (setReceiver receiverOf)) :=
  List.forall₂_map_right_iff.2 (List.forall₂_same.2 fun _ _ => ⟨rfl, rfl, rfl⟩)

theorem markedMakers_withReceivers : markedMakers (withReceivers d receiverOf) =
    (d.constructors.filter MakerDecl.isMarked).map (setReceiver receiverOf) ++ d.factories := by
  rw [markedMakers, withReceivers, List.filter_map]
  rfl

theorem chooseMaker_withReceivers :
    chooseMaker (withReceivers d receiverOf) = chooseMaker d := by
  have hmarked : List.Forall₂ CalledAlike (markedMakers d)
      (markedMakers (withReceivers d receiverOf)) := by
    rw [markedMakers_withReceivers]
    exact List.rel_append (forall₂_setReceiver _) (List.forall₂_same.2 fun _ _ => ⟨rfl, rfl, rfl⟩)
  have hdeclared : List.Forall₂ CalledAlike d.constructors
      (withReceivers d receiverOf).constructors := forall₂_setReceiver _
  have hcall : ∀ m m', CalledAlike m m' →
      resolveMaker (withReceivers d receiverOf) m' = resolveMaker d m := fun m m' h =>
    (resolveMaker_withReceivers m').trans h.resolveMaker_eq
  unfold chooseMaker
  generalize markedMakers d = marked, markedMakers (withReceivers d receiverOf) = marked' at hmarked
  generalize d.constructors = declared, (withReceivers d receiverOf).constructors = declared'
    at hdeclared
  -- lists that are related have one length, and the length decides the choice
  match marked, marked', hmarked with
  | [], [], .nil =>
    match declared, declared', hdeclared with
    | [], [], .nil => exact resolveLiteral_withReceivers
    | [m], [m'], .cons h .nil => exact hcall m m' h
    | _ :: _ :: _, _ :: _ :: _, .cons _ (.cons _ _) => rfl
  | [m], [m'], .cons h .nil => exact hcall m m' h
  | m₁ :: m₂ :: ms, m₁' :: m₂' :: ms', .cons h₁ (.cons h₂ h) =>
    have hnames : ms'.map MakerDecl.name = ms.map MakerDecl.name :=
      (map_eq_map_of_forall₂ (h.imp fun _ _ hm => hm.name.symm)).symm
    simp only [List.map_cons, h₁.name, h₂.name, hnames]
    rfl

/-- Whether constructors take receivers makes no difference to what is resolved. -/
theorem resolve_withReceivers : resolve (withReceivers d receiverOf) = resolve d := by
  simp only [resolve, chooseMaker_withReceivers]
  rfl

/-! ### The declaration that is chosen -/

/-- A declaration that is chosen stands among the factories or among the constructors. -/
theorem mem_of_chosen {m : MakerDecl} (h : Chosen d (some m)) :
    m ∈ d.factories ∨ m ∈ d.constructors := by
  cases h with
  | marked h =>
    have hm : m ∈ markedMakers d := h ▸ List.mem_cons_self
    obtain hm | hm := List.mem_append.1 hm
    · exact .inr (List.mem_of_mem_filter hm)
    · exact .inl hm
  | sole _ hsole => exact .inr (hsole ▸ List.mem_cons_self)

/-- A constructor is chosen whether it takes a receiver or not. -/
theorem chosen_withReceivers {m : MakerDecl} (h : Chosen d (some m)) (hm : m ∉ d.factories) :
    Chosen (withReceivers d receiverOf) (some (setReceiver receiverOf m)) := by
  cases h with
  | marked h =>
    obtain ⟨-, hfactories⟩ | ⟨hfilter, hnone⟩ := List.append_eq_singleton_iff.1 h
    · exact absurd (hfactories ▸ List.mem_cons_self) hm
    · refine .marked ?_
      rw [markedMakers_withReceivers, hfilter, hnone]
      rfl
  | sole h hsole =>
    obtain ⟨hfilter, hnone⟩ := List.append_eq_nil_iff.1 h
    refine .sole ?_ ?_
    · rw [markedMakers_withReceivers, hfilter, hnone]
      rfl
    · rw [withReceivers, hsole]
      rfl

end CodecForge.Plan

namespace CodecForge.Eval

open CodecForge.Schema CodecForge.Source CodecForge.Plan CodecForge.Code

/-- The names of the arguments are those of the declared parameters, in their order. -/
theorem names_of_arguments {d : TypeDecl} {plan : InstantiatorPlan}
    (hplan : planInstantiator d = .ok plan) :
    (arguments plan.construction.params plan.wire).map (fun a => some a.1) =
      (declaredParams d).map fun q => Ident.parse? q.name := by
  obtain ⟨hresolve, hwire⟩ := planInstantiator_ok hplan
  rw [arguments_eq_map hwire, List.map_map]
  refine (map_eq_map_of_forall₂ ((forall₂_of_resolve hresolve).imp fun q p hqp => ?_)).symm
  exact (resolveParam_eq_ok_iff.1 hqp).name

/-- Where a function makes the value, the generated decoder calls one declaration by its name, with
one argument for each of its parameters and nothing else.  Either that is a factory, and then it
takes no receiver, or it is a constructor, and then its receiver is not looked at: with or without
one it is chosen and called in the same way. -/
theorem receiver_of_call {d : TypeDecl} {c : Construction} {name : Ident}
    (hc : resolve d = .ok c) (hcall : c.maker = .associated name) :
    ∃ m, Chosen d (some m) ∧ Ident.parse? m.name = some name ∧
      (m ∈ d.factories ∧ m.isStatic = true ∨
        m ∈ d.constructors ∧ m ∉ d.factories ∧ ∀ receiverOf,
          Chosen (withReceivers d receiverOf) (some (setReceiver receiverOf m)) ∧
          resolve (withReceivers d receiverOf) = .ok c) ∧
      ∀ g gen, Generator.generate g d .instantiator = .ok gen →
        ∃ (type : Path) (unit : CodecUnit) (steps : List DecodeStep)
            (args : List (Ident × Argument)),
          gen.decode = unit.decode.tokens g.runtime g.marshaller ∧
          unit.decode = .steps steps (.make type (.associated name) args c.failure.isSome) ∧
          args.map (fun a => some a.1) = m.params.map fun q => Ident.parse? q.name := by
  obtain ⟨choice, hchosen, hmakes⟩ := exists_makes_of_resolve hc
  have hcallee := hmakes.callee
  rw [hcall] at hcallee
  generalize hfailure : c.failure = failure at hcallee
  cases hcallee with
  | @function m _ _ hname _ =>
    refine ⟨m, hchosen, hname, ?_, fun g gen hg => ?_⟩
    · by_cases hm : m ∈ d.factories
      · refine .inl ⟨hm, ?_⟩
        by_contra hreceiver
        exact checked_of_resolve hc m hm _ (.receiver (Bool.eq_false_iff.2 hreceiver))
      · refine .inr ⟨(mem_of_chosen hchosen).resolve_left hm, hm, fun receiverOf => ?_⟩
        exact ⟨chosen_withReceivers hchosen hm, resolve_withReceivers.trans hc⟩
    · obtain ⟨type, plan, unit, -, hplan, hunit, -, hdecode⟩ := generate_instantiator_ok hg
      obtain rfl : plan.construction = c :=
        Except.ok.inj ((planInstantiator_ok hplan).1.symm.trans hc)
      have hsteps := (ofInstantiator_ok hunit).2
      rw [hcall, hfailure] at hsteps
      refine ⟨type, unit, _, _, hdecode, hsteps, ?_⟩
      rw [names_of_arguments hplan, declaredParams_of_chosen hchosen]
      rfl

/-- A marked constructor that takes a receiver. -/
def reset : MakerDecl where
  name := "reset"
  params := [{ name := "level" }]
  isStatic := false
  isMarked := true

/-- A dial with this constructor and another one. -/
def dial : TypeDecl where
  name := "Dial"
  fields := [{ name := "level", type := "i32", isPublic := true }]
  constructors := [{ name := "zero" }, reset]

/-- The call of the constructor. -/
def resetCall : Construction where
  maker := .associated ⟨"reset"⟩
  params := [⟨⟨"level"⟩, .path ⟨false, [⟨⟨"i32"⟩, .absent⟩]⟩, false⟩]
  failure := none

/-- The decoder of the dial calls the constructor with its parameter alone. -/
theorem receiver_of_call_dial :
    ∃ gen type steps args, resolve dial = .ok resetCall ∧
      resetCall.maker = .associated ⟨"reset"⟩ ∧ Chosen dial (some reset) ∧
      reset.isStatic = false ∧
      Generator.generate (.ofRuntime defaultRuntime) dial .instantiator = .ok gen ∧
      gen.decode = (DecodeBody.steps steps (.make type (.associated ⟨"reset"⟩) args false)).tokens
        defaultRuntime (.ofRuntime defaultRuntime) ∧
      args.map (fun a => some a.1) = [some ⟨"level"⟩] := by
  have hlevel : Ident.parse? "level" = some ⟨"level"⟩ := by decide +kernel
  have hc : resolve dial = .ok resetCall := rfl
  obtain ⟨gen, hg⟩ : ∃ gen,
      Generator.generate (.ofRuntime defaultRuntime) dial .instantiator = .ok gen :=
    exists_of_isOk (by decide +kernel)
  obtain ⟨m, hchosen, -, -, hgenerate⟩ := receiver_of_call hc rfl
  obtain ⟨type, unit, steps, args, hdecode, hsteps, hargs⟩ := hgenerate _ gen hg
  obtain rfl : reset = m := by
    cases hchosen with
    | marked h => cases h; rfl
    | sole h => cases h
  rw [hsteps] at hdecode
  refine ⟨gen, type, steps, args, hc, rfl, hchosen, rfl, hg, hdecode, ?_⟩
  rw [hargs, ← hlevel]
  rfl

end CodecForge.Eval
