import CodecForge.Proofs.Code.Slots
import CodecForge.Proofs.Plan.Resolution

/-!
# The order of fields

A codec that calls a constructor or a factory does not depend on the order in which fields are
declared, in the type or in its bases: fields are looked up by name, and what is looked for is
listed by the parameters.
-/

namespace CodecForge.Plan

open CodecForge.Schema CodecForge.Source CodecForge.Code

variable {d d' : TypeDecl} {l l' : Level} {es es' : List Embedding} {name : String}

/-- The second level is the first with its fields in some order. -/
def LevelReorders (l l' : Level) : Prop := ∃ fields, l.fields.Perm fields ∧ l' = { l with fields }

/-- The second type is the first with the fields of each level in some order. -/
structure Reorders (d d' : TypeDecl) : Prop where
  level : LevelReorders d.toLevel d'.toLevel
  ancestors : List.Forall₂ (fun e e' => e.field = e'.field ∧ LevelReorders e.base e'.base)
    d.ancestors d'.ancestors

/-- No two fields of values that a level declares have one name. -/
def DistinctFields (l : Level) : Prop := ((instanceFields l).map FieldDecl.name).Nodup

instance (l : Level) : Decidable (DistinctFields l) :=
  inferInstanceAs (Decidable ((instanceFields l).map FieldDecl.name).Nodup)

/-! ### Lookup -/

theorem displayName_reorders (h : LevelReorders l l') : l'.displayName = l.displayName := by
  obtain ⟨fields, -, rfl⟩ := h
  rfl

theorem exposes_reorders (h : LevelReorders l l') (name : String) :
    exposes l' name = exposes l name := by
  obtain ⟨fields, hperm, rfl⟩ := h
  exact hperm.symm.any_eq

/-- The order of fields decides a lookup only between fields of one name. -/
theorem instanceField?_reorders (h : LevelReorders l l') (hl : DistinctFields l) (name : String) :
    instanceField? l' name = instanceField? l name := by
  obtain ⟨fields, hperm, rfl⟩ := h
  have hsplit : ∀ fields : List FieldDecl,
      fields.find? (fun f => f.name == name && !f.isStatic) =
        ((fields.filter fun f => !f.isStatic).filter fun f => f.name == name).head? := by
    intro fields
    rw [List.filter_filter, List.head?_filter]
  simp only [instanceField?, hsplit]
  have hfiltered := (hperm.filter fun f => !f.isStatic).filter fun f => f.name == name
  cases hnamed : (instanceFields l).filter fun f => f.name == name with
  | nil =>
    rw [instanceFields] at hnamed
    rw [hnamed] at hfiltered ⊢
    rw [List.nil_perm.1 hfiltered]
  | cons f rest =>
    -- what has the name is one field, and a list of one element has one order
    obtain ⟨hf, hname⟩ := List.mem_filter.1 (hnamed ▸ List.mem_cons_self :
      f ∈ (instanceFields l).filter fun f => f.name == name)
    have hone := filter_key_eq_singleton hl hf
    rw [eq_of_beq hname, instanceFields] at hone
    rw [hone] at hfiltered ⊢
    rw [List.singleton_perm.1 hfiltered]

/-- The same field is found, of a level with the same name. -/
structure SameFound (found found' : Found) : Prop where
  field : found'.field = found.field
  declaring : found'.declaring.displayName = found.declaring.displayName
  path : found'.path = found.path
  isPublic : found'.isPublic = found.isPublic

theorem SameFound.through {found found' : Found} (h : SameFound found found') (hop : String)
    (hopPublic : Bool) :
    SameFound (found.through hop hopPublic) (found'.through hop hopPublic) where
  field := h.field
  declaring := h.declaring
  path := congrArg (hop :: ·) h.path
  isPublic := congrArg (hopPublic && ·) h.isPublic

theorem findFrom_reorders (hl : LevelReorders l l')
    (hes : List.Forall₂ (fun e e' => e.field = e'.field ∧ LevelReorders e.base e'.base) es es')
    (hdistinct : ∀ k ∈ l :: es.map Embedding.base, DistinctFields k) :
    Option.Rel SameFound (findFrom name l es) (findFrom name l' es') := by
  -- the chain is walked from level to level, so the level is any
  induction hes generalizing l l' with
  | nil =>
    rw [findFrom, findFrom, instanceField?_reorders hl (hdistinct l List.mem_cons_self)]
    cases instanceField? l name with
    | none => exact .none
    | some f => exact .some ⟨rfl, displayName_reorders hl, rfl, rfl⟩
  | @cons e e' es es' he hes ih =>
    obtain ⟨hfield, hbase⟩ := he
    have hfurther : Option.Rel SameFound (findFrom name e.base es) (findFrom name e'.base es') :=
      ih hbase fun k hk => hdistinct k (List.mem_cons_of_mem l hk)
    rw [findFrom, findFrom, instanceField?_reorders hl (hdistinct l List.mem_cons_self), ← hfield,
      exposes_reorders hl]
    cases instanceField? l name with
    | some f => exact .some ⟨rfl, displayName_reorders hl, rfl, rfl⟩
    | none =>
      generalize findFrom name e.base es = x, findFrom name e'.base es' = x' at hfurther
      cases hfurther with
      | none => exact .none
      | some h => exact .some (h.through e.field (exposes l e.field))

/-! ### Plans -/

/-- The types differ in their fields at most, and every name finds the same field. -/
structure Alike (d d' : TypeDecl) : Prop where
  same : ∃ fields ancestors, d' = { d with fields, ancestors }
  found (name : String) : Option.Rel SameFound (findField d name) (findField d' name)

theorem Reorders.alike (h : Reorders d d') (hdistinct : ∀ l ∈ levels d, DistinctFields l) :
    Alike d d' := by
  refine ⟨?_, fun name => findFrom_reorders h.level h.ancestors hdistinct⟩
  obtain ⟨fields, -, hlevel⟩ := h.level
  refine ⟨fields, d'.ancestors, ?_⟩
  rw [← hlevel]

namespace Alike

theorem fault_eq (h : Alike d d') (c : Cause) : fault d' c = fault d c := by
  obtain ⟨fields, ancestors, rfl⟩ := h.same
  rfl

theorem readOr_eq (h : Alike d d') {α : Type} (parse? : String → Option α) (text : String) :
    readOr d' parse? text = readOr d parse? text := by
  rw [readOr, readOr, h.fault_eq]

theorem failureType_eq (h : Alike d d') (m : MakerDecl) : failureType d' m = failureType d m := by
  obtain ⟨fields, ancestors, rfl⟩ := h.same
  rfl

theorem typeDependency_eq (h : Alike d d') : typeDependency d' = typeDependency d := by
  obtain ⟨fields, ancestors, rfl⟩ := h.same
  rfl

theorem reachGetter_eq (h : Alike d d') (name : String) (kind : Kind) :
    reachGetter d' name kind = reachGetter d name kind := by
  obtain ⟨fields, ancestors, rfl⟩ := h.same
  rfl

theorem kindOf_eq (h : Alike d d') (field : String) (type : Ty) :
    kindOf d' field type = kindOf d field type := by
  simp only [kindOf, h.fault_eq]

theorem paramType_eq (h : Alike d d') (p : ParamDecl) : paramType d' p = paramType d p := by
  unfold paramType
  cases p.type with
  | some text => exact h.readOr_eq _ _
  | none =>
    have hfound := h.found p.name
    generalize findField d p.name = x, findField d' p.name = x' at hfound
    cases hfound with
    | none => exact congrArg Except.error (h.fault_eq _)
    | some hsame =>
      simp only [hsame.field]
      exact h.readOr_eq _ _

theorem resolveParams_eq (h : Alike d d') (called : String) (params : List ParamDecl) :
    resolveParams d' called params = resolveParams d called params := by
  have hparam : resolveParam d' = resolveParam d := by
    funext p
    simp only [resolveParam, h.paramType_eq, readIdent, h.readOr_eq]
  simp only [resolveParams, hparam, h.fault_eq]

theorem resolveMaker_eq (h : Alike d d') (m : MakerDecl) :
    resolveMaker d' m = resolveMaker d m := by
  simp only [resolveMaker, readIdent, h.readOr_eq, h.failureType_eq, h.resolveParams_eq]

/-- The fields themselves are the parameters only where nothing else is declared. -/
theorem chooseMaker_eq (h : Alike d d') (hmaker : d.constructors ≠ [] ∨ d.factories ≠ []) :
    chooseMaker d' = chooseMaker d := by
  have hmarked : markedMakers d' = markedMakers d := by
    obtain ⟨fields, ancestors, rfl⟩ := h.same
    rfl
  have hconstructors : d'.constructors = d.constructors := by
    obtain ⟨fields, ancestors, rfl⟩ := h.same
    rfl
  unfold chooseMaker
  rw [hmarked, hconstructors]
  split
  · exact h.resolveMaker_eq _
  · next hnone hconstructors =>
    have hfactories : d.factories = [] := (List.append_eq_nil_iff.1 hnone).2
    exact absurd hmaker (by simp [hconstructors, hfactories])
  · exact h.resolveMaker_eq _
  · exact congrArg Except.error (h.fault_eq _)
  · exact congrArg Except.error (h.fault_eq _)

theorem resolve_eq (h : Alike d d') (hmaker : d.constructors ≠ [] ∨ d.factories ≠ []) :
    resolve d' = resolve d := by
  have hfactories : d'.factories.forM (checkFactory d') = d.factories.forM (checkFactory d) := by
    obtain ⟨fields, ancestors, rfl⟩ := h.same
    rfl
  simp only [resolve, hfactories, h.chooseMaker_eq hmaker, h.typeDependency_eq, h.fault_eq]

theorem reach_eq (h : Alike d d') (name : String) (kind : Kind) :
    reach d' name kind = reach d name kind := by
  have hconvention : d'.accessorConvention = d.accessorConvention := by
    obtain ⟨fields, ancestors, rfl⟩ := h.same
    rfl
  have hident : readIdent d' = readIdent d := funext fun text => h.readOr_eq _ text
  have hfield : reachField d' name = reachField d name := by
    have hfound := h.found name
    unfold reachField
    generalize findField d name = x, findField d' name = x' at hfound
    cases hfound with
    | none => exact congrArg Except.error (h.fault_eq _)
    | some hsame =>
      simp only [hsame.field, hsame.declaring, hsame.path, hsame.isPublic, hident, readType,
        h.readOr_eq]
  rw [reach, reach, hconvention, h.reachGetter_eq, hfield]

theorem planInstantiator_eq (h : Alike d d') (hmaker : d.constructors ≠ [] ∨ d.factories ≠ []) :
    planInstantiator d' = planInstantiator d := by
  have hargument : planArgument d' = planArgument d := by
    funext p
    simp only [planArgument, h.kindOf_eq, h.reach_eq]
  simp only [planInstantiator, h.resolve_eq hmaker, hargument, h.typeDependency_eq]

theorem generate_eq (h : Alike d d') (hmaker : d.constructors ≠ [] ∨ d.factories ≠ [])
    (g : Generator) : g.generate d' .instantiator = g.generate d .instantiator := by
  have hselect : select d' .instantiator = select d .instantiator := by
    simp only [select, h.planInstantiator_eq hmaker]
  unfold Generator.generate
  rw [hselect]
  obtain ⟨fields, ancestors, rfl⟩ := h.same
  rfl

end Alike

/-! ### Codecs -/

/-- Values are written in the order of the parameters that they are for. -/
theorem names_of_wire {plan : InstantiatorPlan} (hplan : planInstantiator d = .ok plan) :
    (plan.wire.map fun f => some (⟨f.name⟩ : Ident)) =
      ((declaredParams d).filter fun q => !q.isDependency).map fun q => Ident.parse? q.name := by
  obtain ⟨hresolve, hwire⟩ := planInstantiator_ok hplan
  have hdeclared : List.Forall₂ (Typed d) (declaredParams d) plan.construction.params :=
    (forall₂_of_resolve hresolve).imp fun _ _ => resolveParam_eq_ok_iff.1
  have hvalues : List.Forall₂ (Typed d)
      ((declaredParams d).filter fun q => !q.isDependency) plan.construction.wireParams :=
    List.rel_filter (fun q p hqp => by simp only [hqp.isDependency]) hdeclared
  have hnames : (plan.wire.map fun f => some (⟨f.name⟩ : Ident)) =
      plan.construction.wireParams.map fun p => some p.name := by
    refine (map_eq_map_of_forall₂ (hwire.imp fun p f hpf => ?_)).symm
    rw [name_of_planArgument hpf]
  rw [hnames]
  exact (map_eq_map_of_forall₂ (hvalues.imp fun q p hqp => hqp.name)).symm

end CodecForge.Plan

namespace CodecForge.Code

open CodecForge.Schema CodecForge.Source CodecForge.Plan

/-- Where a constructor or a factory is declared and no level has two fields of values with one
name, fields in another order give the same answer: the same codec, or the same failure.  The values
of the codec are written in the order of the parameters that they are for. -/
theorem generate_reorders {d d' : TypeDecl} (hmaker : d.constructors ≠ [] ∨ d.factories ≠ [])
    (hdistinct : ∀ l ∈ levels d, DistinctFields l) (h : Reorders d d') (g : Generator) :
    g.generate d' .instantiator = g.generate d .instantiator ∧
    ∀ gen, g.generate d .instantiator = .ok gen →
      ∃ (frame : Frame) (plan : InstantiatorPlan) (unit : CodecUnit),
        planInstantiator d = .ok plan ∧ planInstantiator d' = .ok plan ∧
        ofInstantiator frame.type plan = .ok unit ∧
        gen.encode = frame.encodeTokens unit ∧ gen.decode = frame.decodeTokens unit ∧
        gen.tokens = frame.tokens unit ∧
        unit.encode = .steps (plan.wire.flatMap fieldSteps) ∧
        (plan.wire.map fun f => some (⟨f.name⟩ : Ident)) =
          ((declaredParams d).filter fun q => !q.isDependency).map
            fun q => Ident.parse? q.name := by
  have halike := h.alike hdistinct
  refine ⟨halike.generate_eq hmaker g, fun gen hg => ?_⟩
  obtain ⟨frame, plan, unit, -, hplan, hunit, -, -, hencode, hdecode, htokens⟩ :=
    exists_frame_of_generate hg
  have hplan' : planInstantiator d' = .ok plan := (halike.planInstantiator_eq hmaker).trans hplan
  exact ⟨frame, plan, unit, hplan, hplan', hunit, hencode, hdecode, htokens,
    (ofInstantiator_fields hunit).2, names_of_wire hplan⟩

/-- A type with a base, both with private fields; a static member has the name of a field. -/
def circle : TypeDecl where
  name := "Circle"
  fields := [{ name := "base", type := "Shape", isPublic := true },
    { name := "radius", type := "i32" },
    { name := "radius", type := "f64", isPublic := true, isStatic := true }]
  constructors := [{ name := "new", params := [{ name := "tag" }, { name := "radius" },
    { name := "id" }] }]
  ancestors := [⟨"base", {
    name := "Shape"
    fields := [{ name := "id", type := "u32", isPublic := true },
      { name := "tag", type := "String" }] }⟩]

/-- The same type with its fields and those of its base the other way round. -/
def circleReversed : TypeDecl :=
  { circle with
    fields := circle.fields.reverse
    ancestors := circle.ancestors.map fun e =>
      { e with base := { e.base with fields := e.base.fields.reverse } } }

theorem reorders_circle : Reorders circle circleReversed where
  level := ⟨_, (List.reverse_perm _).symm, rfl⟩
  ancestors := .cons ⟨rfl, _, (List.reverse_perm _).symm, rfl⟩ .nil

/-- The codec of the circle is the same for both orders. -/
theorem generate_reorders_circle :
    ∃ gen plan, (Generator.ofRuntime defaultRuntime).generate circle .instantiator = .ok gen ∧
      (Generator.ofRuntime defaultRuntime).generate circleReversed .instantiator = .ok gen ∧
      planInstantiator circleReversed = .ok plan ∧
      plan.wire.map (fun f => some (⟨f.name⟩ : Ident)) =
        [some ⟨"tag"⟩, some ⟨"radius"⟩, some ⟨"id"⟩] := by
  obtain ⟨gen, hg⟩ : ∃ gen,
      (Generator.ofRuntime defaultRuntime).generate circle .instantiator = .ok gen :=
    exists_of_isOk (by decide +kernel)
  obtain ⟨hsame, hwire⟩ := generate_reorders (.inl (by decide)) (by decide)
    reorders_circle (Generator.ofRuntime defaultRuntime)
  obtain ⟨frame, plan, unit, -, hplan, -, -, -, -, -, hnames⟩ := hwire gen hg
  refine ⟨gen, plan, hg, hsame.trans hg, hplan, hnames.trans ?_⟩
  decide +kernel

end CodecForge.Code
