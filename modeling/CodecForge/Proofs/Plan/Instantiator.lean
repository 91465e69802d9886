import CodecForge.Proofs.Code.Generation
import CodecForge.Proofs.Plan.Resolution

/-!
# Plans that call a function

What is known where the plan of a codec that calls a function to make the value succeeds, and where
the codec is generated: each parameter of the plan is the declared one, and each value that travels
is planned for its parameter.
-/

namespace CodecForge.Plan

open CodecForge.Schema CodecForge.Source CodecForge.Code

variable {d : TypeDecl}

/-! ### Parameters -/

/-- The parameters of what makes the value, as they are declared. -/
def declaredParams (d : TypeDecl) : List ParamDecl :=
  match markedMakers d, d.constructors with
  | [m], _ => m.params
  | [], [m] => m.params
  | _, _ => (d.fields.filter fun f => !f.isStatic).map fieldParam

theorem declaredParams_of_chosen {choice : Option MakerDecl} (h : Chosen d choice) :
    declaredParams d = givenParams d choice := by
  unfold declaredParams
  cases h with
  | marked h => rw [h]; rfl
  | sole h hsole => rw [h, hsole]; rfl
  | literal h hnone => rw [h, hnone]; rfl

/-- The parameters of a construction are those that are declared, in their order. -/
theorem forall₂_of_resolve {c : Construction} (h : resolve d = .ok c) :
    List.Forall₂ (fun q p => resolveParam d q = .ok p) (declaredParams d) c.params := by
  obtain ⟨choice, hchosen, hmakes⟩ := exists_makes_of_resolve h
  rw [declaredParams_of_chosen hchosen]
  exact hmakes.params.imp fun _ _ => resolveParam_eq_ok_iff.2

theorem dependency?_isSome_of_mem {c : Construction} {p : Param} (hp : p ∈ c.params)
    (hdependent : p.isDependency = true) : c.dependency?.isSome := by
  rw [Construction.dependency?, Option.isSome_map, List.find?_isSome]
  exact ⟨p, hp, hdependent⟩

/-! ### Values that travel -/

theorem names_of_planArgument {p : Param} {f : WireField} (h : planArgument d p = .ok f) :
    f.name = p.name.text ∧ f.binding = argumentBinding p.name := by
  obtain ⟨kind, -, h⟩ := bind_eq_ok_iff.1 h
  obtain ⟨reach, -, h⟩ := bind_eq_ok_iff.1 h
  cases h
  exact ⟨rfl, rfl⟩

theorem name_of_planArgument {p : Param} {f : WireField} (h : planArgument d p = .ok f) :
    f.name = p.name.text :=
  (names_of_planArgument h).1

theorem binding_of_planArgument {p : Param} {f : WireField} (h : planArgument d p = .ok f) :
    f.binding = argumentBinding p.name :=
  (names_of_planArgument h).2

theorem planInstantiator_ok {plan : InstantiatorPlan} (h : planInstantiator d = .ok plan) :
    resolve d = .ok plan.construction ∧
      List.Forall₂ (fun p f => planArgument d p = .ok f) plan.construction.wireParams
        plan.wire := by
  obtain ⟨c, hc, h⟩ := bind_eq_ok_iff.1 h
  obtain ⟨wire, hwire, h⟩ := bind_eq_ok_iff.1 h
  split at h
  · cases h
    exact ⟨hc, forall₂_of_mapM_eq_ok hwire⟩
  · obtain ⟨dependency, -, h⟩ := bind_eq_ok_iff.1 h
    cases h
    exact ⟨hc, forall₂_of_mapM_eq_ok hwire⟩

/-! ### Local names of parameters -/

section Names

variable {plan : InstantiatorPlan}

theorem argumentBinding_text (name : Ident) :
    (argumentBinding name).text = "__" ++ name.bare := rfl

theorem bindings_of_plan (hplan : planInstantiator d = .ok plan) :
    (plan.wire.map fun f => f.binding.text) =
      plan.construction.wireParams.map fun p => "__" ++ p.name.bare := by
  obtain ⟨-, hwire⟩ := planInstantiator_ok hplan
  refine (map_eq_map_of_forall₂ (hwire.imp fun p f hpf => ?_)).symm
  rw [binding_of_planArgument hpf, argumentBinding_text]

/-- The names of fields are distinct if those of the parameters are. -/
theorem nodup_bindings (hplan : planInstantiator d = .ok plan)
    (hnames : (plan.construction.params.map fun p => p.name.bare).Nodup) :
    (plan.wire.map fun f => f.binding.text).Nodup := by
  have hwire : (plan.construction.wireParams.map fun p => p.name.bare).Nodup :=
    (List.filter_sublist.map _).nodup hnames
  have hmarked : ((plan.construction.wireParams.map fun p => p.name.bare).map ("__" ++ ·)).Nodup :=
    hwire.map fun _ _ heq => (String.append_right_inj _).1 heq
  rw [List.map_map] at hmarked
  rw [bindings_of_plan hplan]
  exact hmarked

/-- Every value that travels is planned for a parameter. -/
theorem exists_param_of_wire (hplan : planInstantiator d = .ok plan) {f : WireField}
    (hf : f ∈ plan.wire) :
    ∃ p ∈ plan.construction.params, p.isDependency = false ∧ planArgument d p = .ok f := by
  obtain ⟨-, hwire⟩ := planInstantiator_ok hplan
  obtain ⟨p, hp, hpf⟩ := forall₂_exists_left hwire hf
  rw [Construction.wireParams, List.mem_filter, Bool.not_eq_true'] at hp
  exact ⟨p, hp.1, hp.2, hpf⟩

theorem exists_wire_of_param (hplan : planInstantiator d = .ok plan) {p : Param}
    (hp : p ∈ plan.construction.params) (hvalue : p.isDependency = false) :
    ∃ f ∈ plan.wire, planArgument d p = .ok f := by
  obtain ⟨-, hwire⟩ := planInstantiator_ok hplan
  refine forall₂_exists_right hwire ?_
  rw [Construction.wireParams, List.mem_filter, Bool.not_eq_true']
  exact ⟨hp, hvalue⟩

end Names

/-! ### Generation -/

/-- A codec that calls a function is spelled from the unit for its plan. -/
theorem exists_frame_of_generate {g : Generator} {gen : Generated}
    (h : g.generate d .instantiator = .ok gen) :
    ∃ (frame : Frame) (plan : InstantiatorPlan) (unit : CodecUnit),
      readPath d d.pathText = .ok frame.type ∧ planInstantiator d = .ok plan ∧
      ofInstantiator frame.type plan = .ok unit ∧
      frame.runtime = g.runtime ∧ frame.marshaller = g.marshaller ∧
      gen.encode = frame.encodeTokens unit ∧ gen.decode = frame.decodeTokens unit ∧
      gen.tokens = frame.tokens unit := by
  obtain ⟨frame, selected, unit, htype, hselect, hunit, hspelled⟩ := exists_unit_of_generate h
  obtain ⟨plan, hplan, hselected⟩ := bind_eq_ok_iff.1 hselect
  cases hselected
  exact ⟨frame, plan, unit, htype, hplan, hunit, hspelled⟩

/-- The code of a codec that calls a function is that of the unit for its plan. -/
theorem generate_instantiator_ok {g : Generator} {gen : Generated}
    (h : g.generate d .instantiator = .ok gen) :
    ∃ type plan unit, readPath d d.pathText = .ok type ∧ planInstantiator d = .ok plan ∧
      ofInstantiator type plan = .ok unit ∧
      gen.encode = unit.encode.tokens g.runtime g.marshaller ∧
      gen.decode = unit.decode.tokens g.runtime g.marshaller := by
  obtain ⟨frame, plan, unit, htype, hplan, hunit, hruntime, hmarshaller, hencode, hdecode, -⟩ :=
    exists_frame_of_generate h
  rw [← hruntime, ← hmarshaller]
  exact ⟨frame.type, plan, unit, htype, hplan, hunit, hencode, hdecode⟩

end CodecForge.Plan
