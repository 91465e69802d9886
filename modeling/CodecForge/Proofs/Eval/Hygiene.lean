import CodecForge.Proofs.Eval.Instantiator

/-!
# Local names of decoders

Which statement a local name refers to where a decoder makes its value: the last one that binds the
name for what follows.  In the decoder of a codec that calls a function, each argument refers to the
statement that read the value for it, with one exception: beside a parameter that is the dependency,
the argument for a parameter called `dependency` refers to the statement that binds the dependency.
-/

namespace CodecForge.Eval

open CodecForge.Schema CodecForge.Source CodecForge.Plan CodecForge.Code CodecForge.Wire

/-! ### Scopes -/

/-- Where a local name can be referred to. -/
inductive Extent where
  /-- In every statement behind the one that binds it. -/
  | onwards
  /-- Within the statement that binds it. -/
  | within
  deriving DecidableEq, Repr

/-- The local names that a statement binds.  An element of an array has its name only in the loop
that reads the elements. -/
def binders : DecodeStep → List (String × Extent)
  | .read (.elements _ _) _ binding => [(binding.text, .onwards), ("__slot", .within)]
  | .read _ _ binding => [(binding.text, .onwards)]
  | .takeDependency => [(dependencyName, .onwards)]
  | .startDefault _ => [(instanceName, .onwards)]
  | .assign _ _ => []

/-- Behind the statement, the name refers to it. -/
def Rebinds (s : DecodeStep) (name : String) : Prop := (name, .onwards) ∈ binders s

instance (s : DecodeStep) (name : String) : Decidable (Rebinds s name) :=
  inferInstanceAs (Decidable (_ ∈ _))

/-- The number of the statement that a name refers to behind all statements: a later statement
hides an earlier one that binds the same name. -/
def referent? : List DecodeStep → String → Option Nat
  | [], _ => none
  | s :: rest, name =>
    match referent? rest name with
    | some i => some (i + 1)
    | none => if Rebinds s name then some 0 else none

section Referent

variable {name : String}

theorem rebinds_decodeField (f : WireField) :
    Rebinds (decodeField f) name ↔ name = f.binding.text := by
  rw [decodeField, Rebinds]
  cases Transfer.of f.kind <;> simp [binders]

theorem rebinds_takeDependency : Rebinds .takeDependency name ↔ name = dependencyName := by
  simp [Rebinds, binders]

theorem referent?_eq_none {steps : List DecodeStep} (h : ∀ s ∈ steps, ¬ Rebinds s name) :
    referent? steps name = none := by
  induction steps with
  | nil => rfl
  | cons s steps ih =>
    rw [List.forall_mem_cons] at h
    rw [referent?, ih h.2]
    exact if_neg h.1

/-- A name refers to a statement that binds it if none behind that one does. -/
theorem referent?_append_cons {before after : List DecodeStep} {s : DecodeStep}
    (hs : Rebinds s name) (hafter : ∀ s ∈ after, ¬ Rebinds s name) :
    referent? (before ++ s :: after) name = some before.length := by
  induction before with
  | nil =>
    rw [List.nil_append, referent?, referent?_eq_none hafter]
    exact if_pos hs
  | cons s' before ih => rw [List.cons_append, referent?, ih, List.length_cons]

end Referent

/-! ### The decoder of a plan -/

/-- The dependency takes the name of the parameter. -/
def IsHidden (c : Construction) (p : Param) : Prop :=
  p.name.bare = "dependency" ∧ c.dependency?.isSome

instance (c : Construction) (p : Param) : Decidable (IsHidden c p) :=
  inferInstanceAs (Decidable (_ ∧ _))

/-- In every run to the end, the name of the field has the value that was read for the field behind
the statements of the given number. -/
def ReadBehind (steps : List DecodeStep) (i : Nat) (f : WireField) : Prop :=
  ∀ (m : Marshalling) (h : Host) (dependency : Option Value) (locals : Locals)
    (input input' : Input),
    steps.foldlM (decodeStep m h dependency) [] input = .ok locals input' →
    ∃ (before : Locals) (j j' : Input),
      (steps.take i).foldlM (decodeStep m h dependency) [] input = .ok before j ∧
      readValue m f.type (Transfer.of f.kind) j = .ok (locals.value f.binding.text) j'

theorem bindingText_eq_dependencyName_iff {d : TypeDecl} {p : Param} {f : WireField}
    (hpf : planArgument d p = .ok f) :
    f.binding.text = dependencyName ↔ p.name.bare = "dependency" := by
  have hdependency : dependencyName = "__" ++ "dependency" := rfl
  rw [binding_of_planArgument hpf, argumentBinding_text, hdependency, String.append_right_inj]

theorem mem_dependencySteps_iff {c : Construction} {s : DecodeStep} :
    s ∈ dependencySteps c ↔ s = .takeDependency ∧ c.dependency?.isSome := by
  unfold dependencySteps
  split
  · next hc => simp [hc]
  · next hc => simp [hc]

theorem value_of_dependencySteps {m : Marshalling} {h : Host} {dependency : Option Value}
    {c : Construction} {locals locals' : Locals} {input input' : Input}
    (hrun : (dependencySteps c).foldlM (decodeStep m h dependency) locals input =
      .ok locals' input')
    {name : String} (hname : ∀ s ∈ dependencySteps c, ¬ Rebinds s name) :
    locals'.value name = locals.value name := by
  cases hc : c.dependency?.isSome with
  | false =>
    have hnone : dependencySteps c = [] := by rw [dependencySteps, hc]; rfl
    rw [hnone] at hrun
    cases hrun
    rfl
  | true =>
    have hone : dependencySteps c = [.takeDependency] := by rw [dependencySteps, hc]; rfl
    have hne : name ≠ dependencyName := fun heq =>
      hname _ (mem_dependencySteps_iff.2 ⟨rfl, hc⟩) (rebinds_takeDependency.2 heq)
    rw [hone, List.foldlM_cons] at hrun
    obtain ⟨locals'', j, htake, hrest⟩ := exists_of_bind_eq_ok hrun
    cases hrest
    cases dependency with
    | none => cases htake
    | some v =>
      cases htake
      exact locals.value_bind_of_ne hne v

section Decoder

variable {d : TypeDecl} {plan : InstantiatorPlan} {p : Param} {f : WireField}
  {before after : List WireField}

theorem referent?_of_isHidden (hpf : planArgument d p = .ok f)
    (hhidden : IsHidden plan.construction p) :
    dependencySteps plan.construction = [.takeDependency] ∧
      referent? (plan.wire.map decodeField ++ dependencySteps plan.construction) f.binding.text =
        some plan.wire.length := by
  have hone : dependencySteps plan.construction = [.takeDependency] := by
    rw [dependencySteps, if_pos hhidden.2]
  have hname : f.binding.text = dependencyName :=
    (bindingText_eq_dependencyName_iff hpf).2 hhidden.1
  have hrebinds : Rebinds .takeDependency f.binding.text := rebinds_takeDependency.2 hname
  have hlast : referent? (plan.wire.map decodeField ++ [.takeDependency]) f.binding.text =
      some (plan.wire.map decodeField).length :=
    referent?_append_cons hrebinds (fun s hs => nomatch hs)
  rw [List.length_map] at hlast
  rw [hone]
  exact ⟨rfl, hlast⟩

/-- Elsewhere no statement behind the one for a field has its name. -/
theorem not_rebinds_of_not_isHidden (hpf : planArgument d p = .ok f)
    (hnames : ((before ++ f :: after).map fun f => f.binding.text).Nodup)
    (hhidden : ¬ IsHidden plan.construction p) :
    (∀ s ∈ after.map decodeField, ¬ Rebinds s f.binding.text) ∧
      ∀ s ∈ dependencySteps plan.construction, ¬ Rebinds s f.binding.text := by
  constructor
  · intro s hs
    obtain ⟨f', hf', rfl⟩ := List.mem_map.1 hs
    rw [List.map_append, List.map_cons] at hnames
    have htail := (List.nodup_cons.1 hnames.of_append_right).1
    intro hrebinds
    rw [rebinds_decodeField] at hrebinds
    exact htail (hrebinds ▸ List.mem_map_of_mem hf')
  · intro s hs
    obtain ⟨rfl, hsome⟩ := mem_dependencySteps_iff.1 hs
    intro hrebinds
    rw [rebinds_takeDependency] at hrebinds
    exact hhidden ⟨(bindingText_eq_dependencyName_iff hpf).1 hrebinds, hsome⟩

section Visible

variable {c : Construction}

theorem fieldSteps_split :
    (before ++ f :: after).map decodeField ++ dependencySteps c =
      before.map decodeField ++ decodeField f :: (after.map decodeField ++ dependencySteps c) := by
  rw [List.map_append, List.map_cons, List.append_assoc, List.cons_append]

theorem referent?_fields (hafter : ∀ s ∈ after.map decodeField, ¬ Rebinds s f.binding.text)
    (hdependency : ∀ s ∈ dependencySteps c, ¬ Rebinds s f.binding.text) :
    referent? ((before ++ f :: after).map decodeField ++ dependencySteps c) f.binding.text =
      some before.length := by
  have hrest : ∀ s ∈ after.map decodeField ++ dependencySteps c, ¬ Rebinds s f.binding.text :=
    List.forall_mem_append.2 ⟨hafter, hdependency⟩
  rw [fieldSteps_split, referent?_append_cons ((rebinds_decodeField f).2 rfl) hrest,
    List.length_map]

/-- A name that no later statement has keeps what was read for its field. -/
theorem readBehind_of_not_rebinds
    (hafter : ∀ s ∈ after.map decodeField, ¬ Rebinds s f.binding.text)
    (hdependency : ∀ s ∈ dependencySteps c, ¬ Rebinds s f.binding.text) :
    ReadBehind ((before ++ f :: after).map decodeField ++ dependencySteps c) before.length f := by
  intro m h dependency locals input input' hrun
  have htake : ((before ++ f :: after).map decodeField ++ dependencySteps c).take before.length =
      before.map decodeField := by
    rw [fieldSteps_split]
    exact List.take_left' (List.length_map decodeField)
  -- the run in four parts: the fields before, the field, those behind it, and the dependency
  rw [fieldSteps_split, List.foldlM_append] at hrun
  obtain ⟨locals₁, j, hbefore, hrun⟩ := exists_of_bind_eq_ok hrun
  rw [List.foldlM_cons] at hrun
  obtain ⟨locals₂, j', hread, hrun⟩ := exists_of_bind_eq_ok hrun
  rw [List.foldlM_append] at hrun
  obtain ⟨locals₃, j₃, hreads, hlast⟩ := exists_of_bind_eq_ok hrun
  have hkept : locals₃.value f.binding.text = locals₂.value f.binding.text := by
    refine value_of_reads_of_notMem hreads fun hmem => ?_
    obtain ⟨f', hf', heq⟩ := List.mem_map.1 hmem
    exact hafter _ (List.mem_map_of_mem hf') ((rebinds_decodeField f').2 heq.symm)
  obtain ⟨v, j'', hvalue, hbound⟩ := exists_of_bind_eq_ok hread
  cases hbound
  rw [htake, value_of_dependencySteps hlast hdependency, hkept, Locals.value_bind_self]
  exact ⟨locals₁, j, _, hbefore, hvalue⟩

end Visible

theorem getElem?_arguments (hplan : planInstantiator d = .ok plan) {k : Nat}
    (hp : plan.construction.params[k]? = some p) (hvalue : p.isDependency = false)
    (hpf : planArgument d p = .ok f) :
    (arguments plan.construction.params plan.wire)[k]? = some (p.name, .bound f.binding) := by
  have hargument : argumentOf p = (p.name, .bound f.binding) := by
    rw [argumentOf, hvalue, binding_of_planArgument hpf]
    rfl
  rw [arguments_eq_map (planInstantiator_ok hplan).2, List.getElem?_map, hp, Option.map_some,
    hargument]

end Decoder

/-! ### Generated decoders -/

/-- The decoder that is generated makes its value from one argument for each parameter.  Where the
names of the parameters are distinct, the argument for a parameter that travels refers to the
statement that read the value planned for it and has that value in every run, unless the dependency
takes its name: then it refers to the statement behind those, which binds the dependency. -/
theorem arguments_refer {g : Generator} {d : TypeDecl} {gen : Generated}
    (hg : g.generate d .instantiator = .ok gen) :
    ∃ (type : Path) (plan : InstantiatorPlan) (unit : CodecUnit) (steps : List DecodeStep)
        (args : List (Ident × Argument)),
      planInstantiator d = .ok plan ∧ ofInstantiator type plan = .ok unit ∧
      gen.decode = unit.decode.tokens g.runtime g.marshaller ∧
      unit.decode = .steps steps
        (.make type plan.construction.maker args plan.construction.failure.isSome) ∧
      ((plan.construction.params.map fun p => p.name.bare).Nodup →
        ∀ (k : Nat) (p : Param), plan.construction.params[k]? = some p → p.isDependency = false →
          ∃ i f, plan.wire[i]? = some f ∧ planArgument d p = .ok f ∧
            args[k]? = some (p.name, .bound f.binding) ∧ steps[i]? = some (decodeField f) ∧
            (¬ IsHidden plan.construction p →
              referent? steps f.binding.text = some i ∧ ReadBehind steps i f) ∧
            (IsHidden plan.construction p →
              referent? steps f.binding.text = some plan.wire.length ∧
                steps[plan.wire.length]? = some .takeDependency)) := by
  obtain ⟨type, plan, unit, -, hplan, hunit, -, hdecode⟩ := generate_instantiator_ok hg
  refine ⟨type, plan, unit, _, _, hplan, hunit, hdecode, (ofInstantiator_ok hunit).2, ?_⟩
  intro hnames k p hp hvalue
  obtain ⟨f, hf, hpf⟩ := exists_wire_of_param hplan (List.mem_of_getElem? hp) hvalue
  obtain ⟨before, after, hwire⟩ := List.append_of_mem hf
  have hbindings := nodup_bindings hplan hnames
  rw [hwire] at hbindings
  have hfield : plan.wire[before.length]? = some f := by rw [hwire]; simp
  refine ⟨before.length, f, hfield, hpf, getElem?_arguments hplan hp hvalue hpf, ?_, ?_, ?_⟩
  · rw [List.getElem?_append_left, List.getElem?_map, hfield, Option.map_some]
    rw [List.length_map, hwire, List.length_append, List.length_cons]
    omega
  · intro hhidden
    obtain ⟨hafter, hdependency⟩ := not_rebinds_of_not_isHidden hpf hbindings hhidden
    rw [hwire]
    exact ⟨referent?_fields hafter hdependency, readBehind_of_not_rebinds hafter hdependency⟩
  · intro hhidden
    obtain ⟨hone, hreferent⟩ := referent?_of_isHidden hpf hhidden
    refine ⟨hreferent, ?_⟩
    rw [hone, List.getElem?_append_right (by rw [List.length_map])]
    simp

/-- A type that is made of a number called `dependency`, a size and a dependency. -/
def handle : TypeDecl where
  name := "Handle"
  fields := [{ name := "dependency", type := "u32" }, { name := "size", type := "i32" },
    { name := "pool", type := "Pool" }]
  constructors := [{ name := "new", params := [{ name := "dependency" }, { name := "size" },
    { name := "pool", isDependency := true }] }]

/-- The names of the parameters of the type, each with whether it is the dependency. -/
def paramNames (d : TypeDecl) : Option (List (String × Bool)) :=
  (planInstantiator d).toOption.map fun plan =>
    plan.construction.params.map fun p => (p.name.bare, p.isDependency)

section ParamNames

variable {d : TypeDecl} {plan : InstantiatorPlan} {names : List (String × Bool)}

theorem params_of_paramNames (hplan : planInstantiator d = .ok plan)
    (hnames : paramNames d = some names) :
    (plan.construction.params.map fun p => (p.name.bare, p.isDependency)) = names := by
  rw [paramNames, hplan] at hnames
  exact Option.some.inj hnames

theorem bareNames_of_paramNames (hplan : planInstantiator d = .ok plan)
    (hnames : paramNames d = some names) :
    (plan.construction.params.map fun p => p.name.bare) = names.map Prod.fst := by
  rw [← params_of_paramNames hplan hnames, List.map_map]
  rfl

theorem exists_param_of_paramNames (hplan : planInstantiator d = .ok plan)
    (hnames : paramNames d = some names) {k : Nat} {name : String} {b : Bool}
    (hk : names[k]? = some (name, b)) :
    ∃ p, plan.construction.params[k]? = some p ∧ p.name.bare = name ∧ p.isDependency = b := by
  rw [← params_of_paramNames hplan hnames, List.getElem?_map, Option.map_eq_some_iff] at hk
  obtain ⟨p, hp, heq⟩ := hk
  exact ⟨p, hp, congrArg Prod.fst heq, congrArg Prod.snd heq⟩

end ParamNames

/-- The size is what was read for it, and the number is the dependency. -/
theorem arguments_refer_handle :
    ∃ (type : Path) (plan : InstantiatorPlan) (unit : CodecUnit) (steps : List DecodeStep)
        (args : List (Ident × Argument)) (fallible : Bool),
      planInstantiator handle = .ok plan ∧ ofInstantiator type plan = .ok unit ∧
      unit.decode = .steps steps (.make type plan.construction.maker args fallible) ∧
      (∃ i f name, args[1]? = some (name, .bound f.binding) ∧ plan.wire[i]? = some f ∧
        referent? steps f.binding.text = some i ∧ ReadBehind steps i f) ∧
      ∃ f name, args[0]? = some (name, .bound f.binding) ∧ f ∈ plan.wire ∧
        referent? steps f.binding.text = some plan.wire.length ∧
        steps[plan.wire.length]? = some .takeDependency := by
  obtain ⟨gen, hg⟩ : ∃ gen,
      (Generator.ofRuntime defaultRuntime).generate handle .instantiator = .ok gen :=
    exists_of_isOk (by decide +kernel)
  obtain ⟨type, plan, unit, steps, args, hplan, hunit, -, hdecode, hrefer⟩ := arguments_refer hg
  have hnames : paramNames handle =
      some [("dependency", false), ("size", false), ("pool", true)] := by decide +kernel
  have hnodup : (plan.construction.params.map fun p => p.name.bare).Nodup := by
    rw [bareNames_of_paramNames hplan hnames]
    decide
  obtain ⟨number, hnumber, hnumberName, hnumberValue⟩ :=
    exists_param_of_paramNames hplan hnames (k := 0) rfl
  obtain ⟨size, hsize, hsizeName, hsizeValue⟩ :=
    exists_param_of_paramNames hplan hnames (k := 1) rfl
  obtain ⟨pool, hpool, -, hpoolDependency⟩ :=
    exists_param_of_paramNames hplan hnames (k := 2) rfl
  have hdependency := dependency?_isSome_of_mem (List.mem_of_getElem? hpool) hpoolDependency
  refine ⟨type, plan, unit, steps, args, _, hplan, hunit, hdecode, ?_, ?_⟩
  · obtain ⟨i, f, hf, -, hargument, -, hvisible, -⟩ := hrefer hnodup 1 size hsize hsizeValue
    have hhidden : ¬ IsHidden plan.construction size := by
      rw [IsHidden, hsizeName]
      exact fun h => absurd h.1 (by decide)
    exact ⟨i, f, _, hargument, hf, hvisible hhidden⟩
  · obtain ⟨i, f, hf, -, hargument, -, -, hhides⟩ := hrefer hnodup 0 number hnumber hnumberValue
    exact ⟨f, _, hargument, List.mem_of_getElem? hf, hhides ⟨hnumberName, hdependency⟩⟩

end CodecForge.Eval
