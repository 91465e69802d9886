import Mathlib
import CodecForge.Proofs.Eval.Steps
import CodecForge.Proofs.Plan.Instantiator

/-!
# Codecs that call a function

The encoder of such a codec writes what its parameters reach in the instance, one after the other,
and the decoder calls the function with what it reads.
-/

namespace CodecForge.Eval

open CodecForge.Schema CodecForge.Source CodecForge.Plan CodecForge.Code CodecForge.Wire

/-! ### The unit of a plan -/

/-- The statement that binds the dependency, if a parameter stands for one. -/
def dependencySteps (c : Construction) : List DecodeStep :=
  if c.dependency?.isSome then [.takeDependency] else []

/-- The argument for a parameter. -/
def argumentOf (p : Param) : Ident × Argument :=
  (p.name, if p.isDependency then .dependency else .bound (argumentBinding p.name))

/-- Values travel in the order of their parameters, so each parameter gets its own. -/
theorem arguments_eq_map {d : TypeDecl} {params : List Param} {wire : List WireField}
    (h : List.Forall₂ (fun p f => planArgument d p = .ok f)
      (params.filter fun p => !p.isDependency) wire) :
    arguments params wire = params.map argumentOf := by
  induction params generalizing wire with
  | nil => rfl
  | cons p params ih =>
    cases hp : p.isDependency with
    | true =>
      rw [List.filter_cons_of_neg (by simp [hp])] at h
      rw [List.map_cons, ← ih h, arguments.eq_def, argumentOf]
      simp only [hp, if_true]
    | false =>
      rw [List.filter_cons_of_pos (by simp [hp])] at h
      cases h with
      | cons hf htail =>
        rw [List.map_cons, ← ih htail, arguments.eq_def, argumentOf, ← binding_of_planArgument hf]
        simp only [hp, Bool.false_eq_true, if_false]

theorem ofInstantiator_ok {type : Path} {plan : InstantiatorPlan} {unit : CodecUnit}
    (h : ofInstantiator type plan = .ok unit) :
    (∃ parts, List.Forall₂ (fun f part => encodeField f = .ok part) plan.wire parts ∧
      unitSlots unit = parts.filterMap (·.2) ∧ unit.encode = .steps (parts.flatMap (·.1))) ∧
    unit.decode = .steps (plan.wire.map decodeField ++ dependencySteps plan.construction)
      (.make type plan.construction.maker (arguments plan.construction.params plan.wire)
        plan.construction.failure.isSome) := by
  obtain ⟨parts, hparts, h⟩ := bind_eq_ok_iff.1 h
  cases h
  refine ⟨⟨parts, forall₂_of_mapM_eq_ok hparts, ?_, rfl⟩, rfl⟩
  unfold unitSlots
  cases parts.filterMap (·.2) <;> rfl

/-! ### Writing -/

section Encode

variable {m : Marshalling} {h : Host} {self : Value}

/-- The encoder writes what each field reaches. -/
theorem encodeUnit_eq {type : Path} {plan : InstantiatorPlan} {unit : CodecUnit}
    (hunit : ofInstantiator type plan = .ok unit)
    (hslots : ((unitSlots unit).map Slot.name).Nodup) (given : Option Value) :
    encodeUnit m h unit self given = plan.wire.forM (writeField m h self) := by
  obtain ⟨⟨parts, hparts, hunitSlots, hencode⟩, -⟩ := ofInstantiator_ok hunit
  have hpaths : ∀ part ∈ parts, ∀ s ∈ part.2, slotPath (unitSlots unit) s.name = s.path := by
    intro part hpart s hs
    refine slotPath_of_mem hslots ?_
    rw [hunitSlots]
    exact List.mem_filterMap.2 ⟨part, hpart, hs⟩
  simp only [encodeUnit, hencode, encodeSteps]
  exact foldlM_encodeFields hparts hpaths []

end Encode

/-! ### Reading -/

/-- Runs the statements of a decoder, and gives the arguments of the call that it ends in. -/
def calledWith (m : Marshalling) (h : Host) (dependency : Option Value) (steps : List DecodeStep)
    (args : List (Ident × Argument)) : Reader (List (Ident × Value)) := do
  let locals ← steps.foldlM (decodeStep m h dependency) []
  return args.map fun a => (a.1, argumentValue locals a.2)

/-- Calls what makes the value, once. -/
def call (h : Host) (maker : Maker) (given : List (Ident × Value)) : Reader Value :=
  match h.make maker given with
  | .ok v => return v
  | .error cause => throw (.instantiator h.typeName cause)

/-- A decoder that ends in a call runs its statements and makes the call. -/
theorem decodeUnit_eq {unit : CodecUnit} {steps : List DecodeStep} {type : Path} {maker : Maker}
    {args : List (Ident × Argument)} {fallible : Bool}
    (hdecode : unit.decode = .steps steps (.make type maker args fallible)) (m : Marshalling)
    (h : Host) (dependency : Option Value) :
    decodeUnit m h unit dependency =
      (do call h maker (← calledWith m h dependency steps args)) := by
  simp only [decodeUnit, hdecode, decodeSteps, calledWith, bind_assoc, pure_bind]
  rfl

/-- The names that a decoder has bound in the end. -/
def withDependency (c : Construction) (dependency : Option Value) (locals : Locals) : Locals :=
  if c.dependency?.isSome then locals.bind dependencyName (dependency.getD .unit) else locals

theorem foldlM_dependencySteps {m : Marshalling} {h : Host} {dependency : Option Value}
    {c : Construction} (hdependency : c.dependency?.isSome → dependency.isSome) (locals : Locals) :
    (dependencySteps c).foldlM (decodeStep m h dependency) locals =
      pure (withDependency c dependency locals) := by
  unfold dependencySteps withDependency
  split
  · next hc =>
    obtain ⟨v, rfl⟩ := Option.isSome_iff_exists.1 (hdependency hc)
    simp [decodeStep]
  · rfl

theorem value_withDependency_of_ne {c : Construction} {dependency : Option Value}
    {locals : Locals} {name : String} (hname : name ≠ dependencyName) :
    (withDependency c dependency locals).value name = locals.value name := by
  unfold withDependency
  split
  · exact locals.value_bind_of_ne hname _
  · rfl

theorem dependencyName_notMem {d : TypeDecl} {plan : InstantiatorPlan}
    (hplan : planInstantiator d = .ok plan)
    (hnames : ∀ p ∈ plan.construction.wireParams, p.name.bare ≠ "dependency") :
    dependencyName ∉ plan.wire.map fun f => f.binding.text := by
  rw [bindings_of_plan hplan]
  intro hmem
  obtain ⟨p, hp, heq⟩ := List.mem_map.1 hmem
  have hdependency : dependencyName = "__" ++ "dependency" := rfl
  rw [hdependency, String.append_right_inj] at heq
  exact hnames p hp heq

/-! ### What is checked -/

/-- What is known of the value that a field reaches if the code of its codec passes the checks of
types.  An array that is reached by its offset is written by its elements whatever its length. -/
def Checked (m : Marshalling) (values : Ty → Value → Prop) (f : WireField) (v : Value) : Prop :=
  match f.reach, Transfer.of f.kind with
  | .rawOffset _ _ _, .elements s _ => ∃ elems, v = .list elems ∧ ∀ e ∈ elems, ScalarValue s e
  | _, transfer => Fits m values f.type v transfer

/-- An array that is reached by its offset has the length of its parameter. -/
def Whole (m : Marshalling) (f : WireField) (v : Value) : Prop :=
  match f.reach, Transfer.of f.kind with
  | .rawOffset _ _ _, .elements _ len => (elements v).length = m.length len
  | _, _ => True

theorem Checked.fits {m : Marshalling} {values : Ty → Value → Prop} {f : WireField} {v : Value}
    (h : Checked m values f v) (hwhole : Whole m f v) :
    Fits m values f.type v (Transfer.of f.kind) := by
  unfold Checked at h
  unfold Whole at hwhole
  split at h
  · next hreach htransfer =>
    obtain ⟨elems, rfl, helems⟩ := h
    rw [hreach, htransfer] at hwhole
    rw [htransfer]
    exact ⟨elems, rfl, hwhole, helems⟩
  · exact h

/-- The code of a codec passes the checks of types: its slots have distinct names, and what its
fields reach in the instance has their types. -/
structure Accepted (m : Marshalling) (values : Ty → Value → Prop) (h : Host) (unit : CodecUnit)
    (wire : List WireField) (v : Value) : Prop where
  slots : ((unitSlots unit).map Slot.name).Nodup
  checked : ∀ f ∈ wire, Checked m values f (reachValue h v f.reach)

/-! ### Arguments -/

/-- The value that is due to a parameter: the dependency that was supplied, or what was planned for
the parameter as the instance has it. -/
def paramValue (d : TypeDecl) (h : Host) (self : Value) (dependency : Option Value) (p : Param) :
    Value :=
  if p.isDependency then dependency.getD .unit
  else match planArgument d p with
    | .ok f => reachValue h self f.reach
    | .error _ => .unit

section Arguments

variable {m : Marshalling} {h : Host} {self : Value} {dependency : Option Value} {d : TypeDecl}
  {plan : InstantiatorPlan}

theorem calledWith_eq {c : Construction} {wire : List WireField}
    (hdependency : c.dependency?.isSome → dependency.isSome) (args : List (Ident × Argument)) :
    calledWith m h dependency (wire.map decodeField ++ dependencySteps c) args =
      (do
        let locals ← (wire.map decodeField).foldlM (decodeStep m h dependency) []
        return args.map fun a =>
          (a.1, argumentValue (withDependency c dependency locals) a.2)) := by
  simp only [calledWith, List.foldlM_append, bind_assoc, foldlM_dependencySteps hdependency,
    pure_bind]

/-- The dependency is bound where a parameter stands for it. -/
theorem value_dependencyName {c : Construction} {p : Param} (hp : p ∈ c.params)
    (hdependent : p.isDependency = true) (locals : Locals) :
    (withDependency c dependency locals).value dependencyName = dependency.getD .unit := by
  rw [withDependency, if_pos (dependency?_isSome_of_mem hp hdependent), Locals.value_bind_self]

/-- Names that are bound to what the fields reach give each parameter what is due to it. -/
theorem argumentValue_of_bound (hplan : planInstantiator d = .ok plan)
    (hname : dependencyName ∉ plan.wire.map fun f => f.binding.text) {locals : Locals}
    (hbound : ∀ f ∈ plan.wire, locals.value f.binding.text = reachValue h self f.reach)
    {p : Param} (hp : p ∈ plan.construction.params) :
    argumentValue (withDependency plan.construction dependency locals) (argumentOf p).2 =
      paramValue d h self dependency p := by
  unfold argumentOf paramValue
  cases hdependent : p.isDependency with
  | true => exact value_dependencyName hp hdependent locals
  | false =>
    obtain ⟨f, hf, hpf⟩ := exists_wire_of_param hplan hp hdependent
    have hne : f.binding.text ≠ dependencyName :=
      fun heq => hname (List.mem_map.2 ⟨f, hf, heq⟩)
    simp only [Bool.false_eq_true, if_false, hpf, argumentValue]
    rw [← binding_of_planArgument hpf, value_withDependency_of_ne hne]
    exact hbound f hf

end Arguments

/-! ### The round trip -/

section RoundTrip

variable {m : Marshalling} {values : Ty → Value → Prop} {h : Host} {self : Value}
  {dependency : Option Value} {d : TypeDecl} {plan : InstantiatorPlan}

/-- The call is made with what is due to each parameter, if all arrays have their lengths. -/
theorem readAs_calledWith (hplan : planInstantiator d = .ok plan) (hm : m.ReadsBack values)
    (hnames : (plan.construction.params.map fun p => p.name.bare).Nodup)
    (hreserved : ∀ p ∈ plan.construction.wireParams, p.name.bare ≠ "dependency")
    (hdependency : plan.construction.dependency?.isSome → dependency.isSome)
    (hfits : ∀ f ∈ plan.wire,
      Fits m values f.type (reachValue h self f.reach) (Transfer.of f.kind)) :
    Writer.ReadAs (plan.wire.forM (writeField m h self))
      (calledWith m h dependency (plan.wire.map decodeField ++ dependencySteps plan.construction)
        (arguments plan.construction.params plan.wire))
      (plan.construction.params.map fun p => (p.name, paramValue d h self dependency p)) := by
  have hname := dependencyName_notMem hplan hreserved
  have hbound : ∀ f ∈ plan.wire,
      (Locals.bindAll [] plan.wire fun f => reachValue h self f.reach).value f.binding.text =
        reachValue h self f.reach :=
    fun f hf => Locals.value_bindAll_of_mem (nodup_bindings hplan hnames) hf
  have hgiven : ∀ p ∈ plan.construction.params,
      ((argumentOf p).1, argumentValue (withDependency plan.construction dependency
          (Locals.bindAll [] plan.wire fun f => reachValue h self f.reach)) (argumentOf p).2) =
        (p.name, paramValue d h self dependency p) :=
    fun p hp => by rw [argumentValue_of_bound hplan hname hbound hp]; rfl
  have hreads : Writer.ReadAs (plan.wire.forM (writeField m h self))
      ((plan.wire.map decodeField).foldlM (decodeStep m h dependency) []) _ :=
    readAs_fields hm hfits []
  have hread := hreads.map fun locals => (arguments plan.construction.params plan.wire).map fun a =>
    (a.1, argumentValue (withDependency plan.construction dependency locals) a.2)
  rw [arguments_eq_map (planInstantiator_ok hplan).2] at hread ⊢
  rw [calledWith_eq hdependency]
  simp only [List.map_map, Function.comp_def] at hread ⊢
  rw [List.map_congr_left hgiven] at hread
  exact hread

/-- If the call is made with what is due to each parameter, all arrays have their lengths. -/
theorem whole_of_calledWith (hplan : planInstantiator d = .ok plan)
    (hnames : (plan.construction.params.map fun p => p.name.bare).Nodup)
    (hreserved : ∀ p ∈ plan.construction.wireParams, p.name.bare ≠ "dependency")
    (hdependency : plan.construction.dependency?.isSome → dependency.isSome) {i i' : Input}
    (hrun : calledWith m h dependency
        (plan.wire.map decodeField ++ dependencySteps plan.construction)
        (arguments plan.construction.params plan.wire) i =
      .ok (plan.construction.params.map fun p => (p.name, paramValue d h self dependency p)) i') :
    ∀ f ∈ plan.wire, Whole m f (reachValue h self f.reach) := by
  intro f hf
  have hname := dependencyName_notMem hplan hreserved
  have hne : f.binding.text ≠ dependencyName :=
    fun heq => hname (List.mem_map.2 ⟨f, hf, heq⟩)
  rw [calledWith_eq hdependency, arguments_eq_map (planInstantiator_ok hplan).2] at hrun
  obtain ⟨locals, j, hreads, hgiven⟩ := exists_of_bind_eq_ok hrun
  -- the parameter of the field gets what was bound to the name of the field
  have hvalue : locals.value f.binding.text = reachValue h self f.reach := by
    obtain ⟨p, hp, hdependent, hpf⟩ := exists_param_of_wire hplan hf
    have hgiven := (EStateM.Result.ok.inj hgiven).1
    rw [List.map_map, List.map_inj_left] at hgiven
    have hp := congrArg Prod.snd (hgiven p hp)
    simp only [Function.comp_apply, argumentOf, paramValue, hdependent, Bool.false_eq_true,
      if_false, hpf, argumentValue] at hp
    rwa [← binding_of_planArgument hpf, value_withDependency_of_ne hne] at hp
  obtain ⟨k, k', hread⟩ := exists_readValue_of_reads (nodup_bindings hplan hnames) hreads hf
  rw [hvalue] at hread
  unfold Whole
  split
  · next htransfer =>
    rw [htransfer] at hread
    exact length_of_readValue hread
  · trivial

end RoundTrip

/-- The code that is generated is that of a unit whose decoder ends in one call, for the parameters
as they are declared.  Where the names of these are distinct and the code is accepted, what the
encoder appends is read back, whatever stands around it, by a call with what is due to each
parameter, exactly if each array that is reached by its offset has the length of its parameter.
A reader counts in 64 bits, so what is written is taken to be shorter than that. -/
theorem instantiator_roundTrip {g : Generator} {d : TypeDecl} {gen : Generated}
    (hg : g.generate d .instantiator = .ok gen) :
    ∃ type plan unit steps args,
      planInstantiator d = .ok plan ∧ ofInstantiator type plan = .ok unit ∧
      gen.encode = unit.encode.tokens g.runtime g.marshaller ∧
      gen.decode = unit.decode.tokens g.runtime g.marshaller ∧
      unit.decode = .steps steps
        (.make type plan.construction.maker args plan.construction.failure.isSome) ∧
      List.Forall₂ (fun q p => resolveParam d q = .ok p) (declaredParams d)
        plan.construction.params ∧
      ∀ (m : Marshalling) (values : Ty → Value → Prop) (h : Host) (self : Value)
        (given dependency : Option Value) (written written' : Bytes),
        m.ReadsBack values →
        (plan.construction.params.map fun p => p.name.bare).Nodup →
        (∀ p ∈ plan.construction.wireParams, p.name.bare ≠ "dependency") →
        (plan.construction.dependency?.isSome → dependency.isSome) →
        Accepted m values h unit plan.wire self →
        encodeUnit m h unit self given written = .ok () written' → written'.length < UInt64.size →
        decodeUnit m h unit dependency =
          (do call h plan.construction.maker (← calledWith m h dependency steps args)) ∧
        ((∀ f ∈ plan.wire, Whole m f (reachValue h self f.reach)) ↔
          ∃ b, written' = written ++ b ∧
            Reader.Yields (calledWith m h dependency steps args) b
              (plan.construction.params.map fun p =>
                (p.name, paramValue d h self dependency p))) := by
  obtain ⟨type, plan, unit, -, hplan, hunit, hencode, hdecode⟩ := generate_instantiator_ok hg
  have hsteps := (ofInstantiator_ok hunit).2
  refine ⟨type, plan, unit, _, _, hplan, hunit, hencode, hdecode, hsteps,
    forall₂_of_resolve (planInstantiator_ok hplan).1, ?_⟩
  intro m values h self given dependency written written' hm hnames hreserved hdependency haccepted
    hrun hlength
  refine ⟨decodeUnit_eq hsteps m h dependency, fun hwhole => ?_, ?_⟩
  · rw [encodeUnit_eq hunit haccepted.slots] at hrun
    have hfits := fun f hf => (haccepted.checked f hf).fits (hwhole f hf)
    exact readAs_calledWith hplan hm hnames hreserved hdependency hfits written written' hrun
  · rintro ⟨b, rfl, hyields⟩
    rw [List.length_append] at hlength
    have hread := hyields [] [] (by rw [List.nil_append, List.append_nil]; omega)
    exact whole_of_calledWith hplan hnames hreserved hdependency hread

/-! ### An array of another length -/

/-- A type that keeps its cells in a private list and is made of an array of three. -/
def samples : TypeDecl where
  name := "Samples"
  fields := [{ name := "cells", type := "Vec<i32>" }]
  constructors := [{ name := "new", params := [{ name := "cells", type := some "[i32; 3]" }] }]

/-- A value of the type. -/
def samplesOf (cells : List Int) : Value := .record [("cells", .list (cells.map .integer))]

/-- Values of the type are made of what is given. -/
def samplesHost : Host where
  typeName := "Samples"
  method _ v := v
  make _ args := .ok (.record (args.map fun a => (a.1.text, a.2)))
  default := .unit
  canonical := .unit

/-- The plan for the type, up to the types in it. -/
def samplesPlan (type type' declared : Ty) : InstantiatorPlan where
  construction := ⟨.associated ⟨"new"⟩, [⟨⟨"cells"⟩, type, false⟩], none⟩
  wire := [⟨"cells", ⟨"__cells"⟩, type', .array (.scalar .int32) ⟨[.literal "3"]⟩,
    .rawOffset "Samples" [⟨"cells"⟩] declared⟩]
  dependency := none

/-- The plan is that for the type. -/
def isSamplesPlan : Except Fault InstantiatorPlan → Bool
  | .ok ⟨⟨.associated ⟨"new"⟩, [⟨⟨"cells"⟩, _, false⟩], none⟩,
      [⟨"cells", ⟨"__cells"⟩, _, .array (.scalar .int32) ⟨[.literal "3"]⟩,
        .rawOffset "Samples" [⟨"cells"⟩] _⟩], none⟩ => true
  | _ => false

theorem exists_of_isSamplesPlan {x : Except Fault InstantiatorPlan} (h : isSamplesPlan x = true) :
    ∃ type type' declared, x = .ok (samplesPlan type type' declared) := by
  unfold isSamplesPlan at h
  split at h
  · exact ⟨_, _, _, rfl⟩
  · cases h

theorem planInstantiator_samples :
    ∃ type type' declared, planInstantiator samples = .ok (samplesPlan type type' declared) :=
  exists_of_isSamplesPlan (by decide +kernel)

theorem generate_samples :
    ∃ gen, (Generator.ofRuntime defaultRuntime).generate samples .instantiator = .ok gen :=
  exists_of_isOk (by decide +kernel)

theorem accepted_samples {type : Path} {t t' declared : Ty} {unit : CodecUnit}
    (hunit : ofInstantiator type (samplesPlan t t' declared) = .ok unit) {cells : List Int}
    (hcells : ∀ n ∈ cells, Width.Holds .w32 true n) :
    Accepted (marshallingOf .none) BuiltIn samplesHost unit (samplesPlan t t' declared).wire
      (samplesOf cells) := by
  constructor
  · obtain ⟨⟨parts, hparts, hslots, -⟩, -⟩ := ofInstantiator_ok hunit
    obtain ⟨⟨_, slot⟩, _, -, hnil, rfl⟩ := List.forall₂_cons_left_iff.1 hparts
    cases hnil
    rw [hslots]
    cases slot <;> simp
  · refine List.forall_mem_singleton.2 ⟨cells.map .integer, rfl, fun v hv => ?_⟩
    obtain ⟨n, hn, rfl⟩ := List.mem_map.1 hv
    exact ⟨n, hcells n hn, rfl⟩

theorem length_three : (marshallingOf .none).length ⟨[.literal "3"]⟩ = 3 := by
  have hthree : "3".toNat? = some 3 := Nat.toNat?_repr 3
  simp only [marshallingOf, WireType.lengthOf?, hthree, Option.getD_some]

theorem whole_samples_iff {t t' declared : Ty} {cells : List Int} :
    (∀ f ∈ (samplesPlan t t' declared).wire,
      Whole (marshallingOf .none) f (reachValue samplesHost (samplesOf cells) f.reach)) ↔
        cells.length = 3 := by
  rw [samplesPlan, List.forall_mem_singleton, ← length_three, ← List.length_map Value.integer]
  rfl

theorem paramValue_samples {t t' declared : Ty}
    (hplan : planInstantiator samples = .ok (samplesPlan t t' declared)) (cells : List Int) :
    ((samplesPlan t t' declared).construction.params.map fun p =>
        (p.name, paramValue samples samplesHost (samplesOf cells) none p)) =
      [(⟨"cells"⟩, .list (cells.map .integer))] := by
  have hwire := (planInstantiator_ok hplan).2
  simp only [samplesPlan, Construction.wireParams] at hwire ⊢
  obtain ⟨f, _, hf, -, heq⟩ := List.forall₂_cons_left_iff.1 hwire
  cases heq
  rw [List.map_singleton, paramValue, if_neg (by simp), hf]
  rfl

/-- The codec of the type reads back three cells.  Of four it writes more than it reads. -/
theorem instantiator_roundTrip_samples :
    ∃ type plan unit steps args fallible,
      planInstantiator samples = .ok plan ∧ ofInstantiator type plan = .ok unit ∧
      unit.decode = .steps steps (.make type (.associated ⟨"new"⟩) args fallible) ∧
      encodeUnit (marshallingOf .none) samplesHost unit (samplesOf [1, 2, 3]) none [] =
        .ok () [1, 0, 0, 0, 2, 0, 0, 0, 3, 0, 0, 0] ∧
      Reader.Yields (calledWith (marshallingOf .none) samplesHost none steps args)
        [1, 0, 0, 0, 2, 0, 0, 0, 3, 0, 0, 0]
        [(⟨"cells"⟩, .list [.integer 1, .integer 2, .integer 3])] ∧
      encodeUnit (marshallingOf .none) samplesHost unit (samplesOf [1, 2, 3, 4]) none [] =
        .ok () [1, 0, 0, 0, 2, 0, 0, 0, 3, 0, 0, 0, 4, 0, 0, 0] ∧
      ¬ Reader.Yields (calledWith (marshallingOf .none) samplesHost none steps args)
        [1, 0, 0, 0, 2, 0, 0, 0, 3, 0, 0, 0, 4, 0, 0, 0]
        [(⟨"cells"⟩, .list [.integer 1, .integer 2, .integer 3, .integer 4])] := by
  obtain ⟨gen, hg⟩ := generate_samples
  obtain ⟨type, plan, unit, steps, args, hplan, hunit, -, -, hdecode, -, hround⟩ :=
    instantiator_roundTrip hg
  obtain ⟨t, t', declared, hsamples⟩ := planInstantiator_samples
  obtain rfl : plan = samplesPlan t t' declared := Except.ok.inj (hplan.symm.trans hsamples)
  -- the codec reads back exactly the instances with three cells
  have hreads : ∀ cells written, (∀ n ∈ cells, Width.Holds .w32 true n) →
      encodeUnit (marshallingOf .none) samplesHost unit (samplesOf cells) none [] = .ok () written →
      written.length < UInt64.size → (cells.length = 3 ↔
        Reader.Yields (calledWith (marshallingOf .none) samplesHost none steps args) written
          [(⟨"cells"⟩, .list (cells.map .integer))]) := by
    intro cells written hcells hrun hlength
    have hnames : ((samplesPlan t t' declared).construction.params.map
        fun p => p.name.bare).Nodup := by
      simp [samplesPlan]
    have hreserved : ∀ p ∈ (samplesPlan t t' declared).construction.wireParams,
        p.name.bare ≠ "dependency" := by
      simp [samplesPlan, Construction.wireParams, Ident.bare]
    have hiff := (hround (marshallingOf .none) BuiltIn samplesHost (samplesOf cells) none none []
      written (marshallingOf_readsBack _) hnames hreserved
      (by simp [samplesPlan, Construction.dependency?]) (accepted_samples hunit hcells) hrun
      hlength).2
    rw [whole_samples_iff] at hiff
    rw [hiff]
    simp only [List.nil_append, exists_eq_left']
    rw [paramValue_samples hsamples]
  have hthree : ∀ n ∈ [1, 2, 3], Width.Holds .w32 true n := by decide
  have hfour : ∀ n ∈ [1, 2, 3, 4], Width.Holds .w32 true n := by decide
  have hwrites : encodeUnit (marshallingOf .none) samplesHost unit (samplesOf [1, 2, 3]) none [] =
      .ok () [1, 0, 0, 0, 2, 0, 0, 0, 3, 0, 0, 0] := by
    rw [encodeUnit_eq hunit (accepted_samples hunit hthree).slots]
    rfl
  have hwrites' : encodeUnit (marshallingOf .none) samplesHost unit (samplesOf [1, 2, 3, 4]) none
      [] = .ok () [1, 0, 0, 0, 2, 0, 0, 0, 3, 0, 0, 0, 4, 0, 0, 0] := by
    rw [encodeUnit_eq hunit (accepted_samples hunit hfour).slots]
    rfl
  refine ⟨type, _, unit, steps, args, _, hplan, hunit, hdecode, hwrites, ?_, hwrites', ?_⟩
  · exact (hreads _ _ hthree hwrites (by decide)).1 rfl
  · intro hread
    have hlength := (hreads _ _ hfour hwrites' (by decide)).2 hread
    exact absurd hlength (by decide)

end CodecForge.Eval
