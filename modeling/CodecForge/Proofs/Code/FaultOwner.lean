import CodecForge.Proofs.Code.Batch

/-!
# Whom a fault is reported against

A type is planned with its bases at hand, and its fields and parameters are looked for in all of
them.  Whatever is wrong, and at whichever level, the fault carries the name of the type that the
codec was asked for.
-/

namespace CodecForge.Plan

open CodecForge.Schema CodecForge.Source

/-! ### Rules -/

/-- Each fault that the planning step can end with is reported against the type. -/
def ReportedAgainst (d : TypeDecl) {α : Type} (x : Except Fault α) : Prop :=
  ∀ f, x = .error f → f.typeName = d.displayName

namespace ReportedAgainst

variable {d : TypeDecl} {α β : Type} {x : Except Fault α}

theorem ok (a : α) : ReportedAgainst d (.ok a : Except Fault α) := by
  intro f h
  cases h

theorem fault (c : Cause) : ReportedAgainst d (.error (Plan.fault d c) : Except Fault α) := by
  intro f h
  cases h
  rfl

theorem bind {step : α → Except Fault β} (hx : ReportedAgainst d x)
    (hstep : ∀ a, ReportedAgainst d (step a)) : ReportedAgainst d (x >>= step) := by
  intro f h
  rcases bind_eq_error_iff.1 h with h | ⟨a, -, h⟩
  · exact hx f h
  · exact hstep a f h

theorem andThen_ok {step : α → β} (hx : ReportedAgainst d x) :
    ReportedAgainst d (x >>= fun a => .ok (step a)) :=
  hx.bind fun a => .ok (step a)

theorem mapM {γ : Type} {step : γ → Except Fault α} {cs : List γ}
    (hstep : ∀ c ∈ cs, ReportedAgainst d (step c)) : ReportedAgainst d (cs.mapM step) := by
  intro f h
  obtain ⟨before, c, after, rfl, -, hc⟩ := mapM_eq_error_iff.1 h
  exact hstep c (List.mem_append_right before List.mem_cons_self) f hc

theorem forM {γ : Type} {step : γ → Except Fault PUnit} {cs : List γ}
    (hstep : ∀ c ∈ cs, ReportedAgainst d (step c)) : ReportedAgainst d (cs.forM step) := by
  intro f h
  rw [forM_eq_map_mapM, map_eq_error_iff] at h
  exact mapM hstep f h

end ReportedAgainst

/-! ### Reading and reaching -/

section Steps

variable (d : TypeDecl)

theorem reportedAgainst_readOr {α : Type} (parse? : String → Option α) (text : String) :
    ReportedAgainst d (readOr d parse? text) := by
  intro f h
  rw [(readOr_eq_error_iff.1 h).2]
  rfl

theorem reportedAgainst_kindOf (field : String) (type : Ty) :
    ReportedAgainst d (kindOf d field type) := by
  unfold kindOf
  split
  · exact .ok _
  · exact .fault _

theorem reportedAgainst_reachGetter (name : String) (kind : Kind) :
    ReportedAgainst d (reachGetter d name kind) := by
  unfold reachGetter
  split
  · exact .fault _
  · exact (reportedAgainst_readOr d _ _).andThen_ok

/-- The field may be a base's, and a text of the base's that cannot be read is still reported
against the type itself. -/
theorem reportedAgainst_reachField (name : String) : ReportedAgainst d (reachField d name) := by
  unfold reachField
  split
  · exact .fault _
  · refine .bind (.mapM fun hop _ => reportedAgainst_readOr d _ hop) fun path => ?_
    split
    · exact .ok _
    · exact (reportedAgainst_readOr d _ _).andThen_ok

theorem reportedAgainst_reach (name : String) (kind : Kind) :
    ReportedAgainst d (reach d name kind) := by
  unfold reach
  split
  · exact reportedAgainst_reachGetter d name kind
  · exact reportedAgainst_reachField d name

/-! ### Making a value -/

theorem reportedAgainst_failureType (m : MakerDecl) : ReportedAgainst d (failureType d m) := by
  unfold failureType
  split
  · exact .ok _
  · refine .bind (reportedAgainst_readOr d _ _) fun type => ?_
    split
    · exact .ok _
    · exact .fault _

theorem reportedAgainst_checkFactory (m : MakerDecl) : ReportedAgainst d (checkFactory d m) := by
  unfold checkFactory
  split
  · exact (reportedAgainst_failureType d m).andThen_ok
  · exact .fault _

theorem reportedAgainst_typeDependency : ReportedAgainst d (typeDependency d) := by
  unfold typeDependency
  split
  · exact .ok _
  · refine .bind (reportedAgainst_readOr d _ _) fun type => ?_
    split
    · exact .ok _
    · exact .ok _

theorem reportedAgainst_resolveParam (p : ParamDecl) : ReportedAgainst d (resolveParam d p) := by
  have htype : ReportedAgainst d (paramType d p) := by
    unfold paramType
    split
    · exact reportedAgainst_readOr d _ _
    · split
      · exact reportedAgainst_readOr d _ _
      · exact .fault _
  exact htype.bind fun _ => (reportedAgainst_readOr d _ _).andThen_ok

theorem reportedAgainst_resolveParams (called : String) (params : List ParamDecl) :
    ReportedAgainst d (resolveParams d called params) := by
  unfold resolveParams
  split
  · exact .fault _
  · exact .mapM fun p _ => reportedAgainst_resolveParam d p

theorem reportedAgainst_resolveMaker (m : MakerDecl) : ReportedAgainst d (resolveMaker d m) :=
  (reportedAgainst_readOr d _ _).bind fun _ => (reportedAgainst_failureType d m).bind fun _ =>
    (reportedAgainst_resolveParams d _ _).andThen_ok

theorem reportedAgainst_chooseMaker : ReportedAgainst d (chooseMaker d) := by
  unfold chooseMaker
  split
  · exact reportedAgainst_resolveMaker d _
  · exact (reportedAgainst_resolveParams d _ _).andThen_ok
  · exact reportedAgainst_resolveMaker d _
  · exact .fault _
  · exact .fault _

theorem reportedAgainst_resolve : ReportedAgainst d (resolve d) := by
  refine .bind (.forM fun m _ => reportedAgainst_checkFactory d m) fun _ =>
    (reportedAgainst_chooseMaker d).bind fun construction => ?_
  split
  · refine (reportedAgainst_typeDependency d).bind fun dependency => ?_
    split
    · exact .fault _
    · exact .ok _
  · exact .ok _

/-! ### Plans -/

theorem reportedAgainst_planArgument (p : Param) : ReportedAgainst d (planArgument d p) :=
  (reportedAgainst_kindOf d _ _).bind fun kind => (reportedAgainst_reach d _ kind).andThen_ok

theorem reportedAgainst_planInstantiator : ReportedAgainst d (planInstantiator d) := by
  refine (reportedAgainst_resolve d).bind fun construction =>
    .bind (.mapM fun p _ => reportedAgainst_planArgument d p) fun wire => ?_
  split
  · exact .ok _
  · exact (reportedAgainst_typeDependency d).andThen_ok

theorem reportedAgainst_fieldPaths {hops : List Ident}
    {base : Option (String × (List Ident → Except Fault (List PublicPath)))}
    (hbase : ∀ b ∈ base, ∀ hops, ReportedAgainst d (b.2 hops)) (f : FieldDecl) :
    ReportedAgainst d (fieldPaths d hops base f) := by
  unfold fieldPaths
  split
  · exact .ok _
  refine .bind (reportedAgainst_readOr d _ _) fun name => ?_
  split
  · next embedding below hfilter =>
    split
    · exact hbase _ (Option.filter_eq_some_iff.1 hfilter).1 _
    · exact .ok _
  · split
    · exact .ok _
    · refine .bind (reportedAgainst_readOr d _ _) fun type =>
        (reportedAgainst_kindOf d _ _).bind fun kind => ?_
      split
      · exact .ok _
      · exact .ok _

/-- However deep the level is that a field stands in, the type is the one at the root. -/
theorem reportedAgainst_levelPaths (level : Level) (bases : List Embedding) (hops : List Ident) :
    ReportedAgainst d (levelPaths d level bases hops) := by
  induction bases generalizing level hops with
  | nil =>
    refine .andThen_ok (.mapM fun f _ => reportedAgainst_fieldPaths d ?_ f)
    rintro b ⟨⟩
  | cons e rest ih =>
    refine .andThen_ok (.mapM fun f _ => reportedAgainst_fieldPaths d ?_ f)
    rintro b ⟨⟩
    exact ih e.base

theorem reportedAgainst_planPublicFields : ReportedAgainst d (planPublicFields d) :=
  (reportedAgainst_levelPaths d _ _ _).bind fun _ => (reportedAgainst_typeDependency d).andThen_ok

theorem reportedAgainst_select (s : Strategy) : ReportedAgainst d (select d s) := by
  cases s with
  | instantiator => exact (reportedAgainst_planInstantiator d).andThen_ok
  | publicFields => exact (reportedAgainst_planPublicFields d).andThen_ok
  | polymorphic =>
    rw [select]
    split
    · exact (reportedAgainst_typeDependency d).andThen_ok
    · exact .fault _
  | singleton =>
    refine (reportedAgainst_typeDependency d).bind fun dependency => ?_
    split
    · exact .fault _
    · exact (reportedAgainst_readOr d _ _).andThen_ok

end Steps

end CodecForge.Plan

namespace CodecForge.Code

open CodecForge.Schema CodecForge.Source CodecForge.Plan

variable {g : Generator} {d : TypeDecl} {s : Strategy}

/-! ### Codecs and batches -/

/-- The unit of a plan is no place where a fault arises: it can only be cut short. -/
theorem typeName_of_generate_fault {f : Fault} (h : g.generate d s = .error (.fault f)) :
    f.typeName = d.displayName := by
  have horFault : ∀ {α : Type} {x : Except Fault α}, ReportedAgainst d x →
      Generator.orFault x = .error (.fault f) → f.typeName = d.displayName := by
    intro α x hx hfault
    cases x with
    | ok a => cases hfault
    | error f' =>
      cases hfault
      exact hx _ rfl
  have haborted : ∀ {α : Type} {x : Except InvalidSlot α},
      x.mapError Failure.aborted ≠ .error (.fault f) := by
    intro α x hfault
    cases x <;> cases hfault
  simp only [Generator.generate, bind_eq_error_iff, haborted, false_or] at h
  obtain h | ⟨type, -, h | ⟨plan, -, unit, -, h | ⟨codec, -, h | ⟨visibility, -, h⟩⟩⟩⟩ := h
  · exact horFault (reportedAgainst_readOr d _ _) h
  · exact horFault (reportedAgainst_select d s) h
  · exact horFault (reportedAgainst_readOr d _ _) h
  · exact horFault (reportedAgainst_readOr d _ _) h
  · cases h

/-- A rejection bears the name of the requested type, and so does the fault in it. -/
theorem typeNames_of_rejected? {r : Request} {x : Rejection} (h : rejected? g r = some x) :
    g.generate r.decl r.strategy = .error (.fault x.fault) ∧
      x.typeName = r.decl.displayName ∧ x.fault.typeName = r.decl.displayName := by
  unfold rejected? at h
  split at h
  · next f hfault =>
    cases h
    exact ⟨hfault, rfl, typeName_of_generate_fault hfault⟩
  · cases h

/-- If no codec is generated for a type, the fault names the type by the name it is reported with,
and none of its bases, fields and parameters.  The failures of a batch stand for the requests that
failed, in their order, each under the name of the requested type and with its fault. -/
theorem faults_name_requested (g : Generator) :
    (∀ d s f, g.generate d s = .error (.fault f) → f.typeName = d.displayName) ∧
    ∀ requests report, g.generateBatch requests = .ok report →
      List.Forall₂ (fun (r : Request) (x : Rejection) =>
          g.generate r.decl r.strategy = .error (.fault x.fault) ∧
            x.typeName = r.decl.displayName ∧ x.fault.typeName = r.decl.displayName)
        (requests.filter fun r => (rejected? g r).isSome) report.failures := by
  refine ⟨fun d s f => typeName_of_generate_fault, fun requests report hreport => ?_⟩
  rw [(accounts_of_generateBatch hreport).eq_filterMap.2]
  exact (forall₂_filterMap (rejected? g) requests).imp fun r x => typeNames_of_rejected?

/-- A request that fails for a public field of a base, which holds borrowed text. -/
def labelledRequest : Request where
  strategy := .publicFields
  decl := {
    name := "Circle", qualifiedName := some "geo::Circle"
    fields := [{ name := "base", type := "Shape", isPublic := true }]
    ancestors := [⟨"base", {
      name := "Shape", qualifiedName := some "geo::Shape"
      fields := [{ name := "label", type := "&'static str", isPublic := true }] }⟩] }

/-- The fault lies in the base, and the name is that of the type. -/
theorem faults_name_requested_labelled :
    (∃ f, (Generator.ofRuntime defaultRuntime).generate labelledRequest.decl .publicFields =
        .error (.fault f) ∧ f.typeName = "geo::Circle") ∧
    ∃ report, (Generator.ofRuntime defaultRuntime).generateBatch [labelledRequest, pointRequest] =
        .ok report ∧ report.failures.map (fun x => (x.typeName, x.fault.typeName)) =
          [("geo::Circle", "geo::Circle")] := by
  obtain ⟨hfaults, hbatches⟩ := faults_name_requested (Generator.ofRuntime defaultRuntime)
  have hrejected : (rejected? (Generator.ofRuntime defaultRuntime) labelledRequest).isSome := by
    decide +kernel
  have hserved : (rejected? (Generator.ofRuntime defaultRuntime) pointRequest).isSome = false := by
    decide +kernel
  constructor
  · obtain ⟨x, hx⟩ := Option.isSome_iff_exists.1 hrejected
    have hfault := (typeNames_of_rejected? hx).1
    exact ⟨x.fault, hfault, hfaults _ _ _ hfault⟩
  · have hwhole : ∀ r ∈ [labelledRequest, pointRequest], ¬ ∃ slot,
        (Generator.ofRuntime defaultRuntime).generate r.decl r.strategy =
          .error (.aborted slot) := by
      simp only [exists_generate_aborted_iff]
      decide +kernel
    obtain ⟨report, hreport⟩ := exists_answers hwhole {}
    have hfailures := hbatches _ report hreport
    simp only [List.filter_cons, hrejected, hserved, if_true, Bool.false_eq_true, if_false,
      List.filter_nil] at hfailures
    obtain ⟨x, rest, ⟨-, hname, hfault⟩, hrest, hlist⟩ := List.forall₂_cons_left_iff.1 hfailures
    cases hrest
    refine ⟨report, hreport, ?_⟩
    rw [hlist, List.map_singleton, hname, hfault]
    rfl

end CodecForge.Code
