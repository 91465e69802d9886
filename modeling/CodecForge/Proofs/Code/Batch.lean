import CodecForge.Proofs.Code.Slots

/-!
# Answers to batches

A batch is answered by a report that accounts for each request, in the order of the requests.
There is a report exactly if no request has its generation cut short.  That happens to codecs that
call a function only: those with a slot for a parameter whose name, without the underscores in
front, begins with a character that no identifier begins with.
-/

namespace CodecForge.Code

open CodecForge.Schema CodecForge.Source CodecForge.Plan CodecForge.Eval

/-! ### Slots without a name -/

/-- The name begins with a character that no identifier begins with. -/
def beginsAmiss (name : String) : Bool := name.toList.head?.any fun c => !Text.isIdentStart c

/-- The codec of the type that calls a function cannot be written down, since it needs a slot that
has no name. -/
def isCutShort (d : TypeDecl) : Bool :=
  (readPath d d.pathText).isOk && (offsetStems d).any fun stems => stems.any beginsAmiss

/-- A stem that is empty makes a name all the same, since an underscore begins identifiers. -/
theorem isIdentStart_head_offset (name : String) :
    (name ++ "_offset").toList.head?.any Text.isIdentStart = !beginsAmiss name := by
  have hoffset : "_offset".toList = '_' :: "offset".toList := rfl
  rw [String.toList_append, hoffset, beginsAmiss]
  cases name.toList with
  | nil =>
    have hunderscore : Text.isIdentStart '_' = true := by decide
    simpa using hunderscore
  | cons c cs => simp

theorem lacksName_of_plan {d : TypeDecl} {plan : InstantiatorPlan}
    (hplan : planInstantiator d = .ok plan) {f : WireField} (hf : f ∈ plan.wire) :
    lacksName f = (isOffset f && beginsAmiss (stemOf f)) := by
  rw [lacksName, slotText_of_plan hplan hf, isIdentStart_head_offset, Bool.not_not]

theorem exists_ofInstantiator_error_iff {type : Path} {plan : InstantiatorPlan} :
    (∃ slot, ofInstantiator type plan = .error slot) ↔ ∃ f ∈ plan.wire, lacksName f = true := by
  have hunit : (∃ unit, ofInstantiator type plan = .ok unit) ↔
      ∃ fields, plan.wire.mapM encodeField = .ok fields := by
    simp only [ofInstantiator, bind_eq_ok_iff]
    constructor
    · rintro ⟨-, fields, hfields, -⟩
      exact ⟨fields, hfields⟩
    · rintro ⟨fields, hfields⟩
      exact ⟨_, fields, hfields, rfl⟩
  have hfield : ∀ f, (∃ part, encodeField f = .ok part) ↔ ¬ lacksName f = true := by
    intro f
    rw [encodeField_eq]
    cases lacksName f <;> simp
  rw [exists_error_iff, hunit, exists_mapM_eq_ok_iff]
  simp only [hfield, not_forall, not_not, exists_prop]

theorem anyStem_beginsAmiss_iff {d : TypeDecl} {plan : InstantiatorPlan}
    (hplan : planInstantiator d = .ok plan) :
    ((offsetStems d).any fun stems => stems.any beginsAmiss) = true ↔
      ∃ f ∈ plan.wire, lacksName f = true := by
  rw [offsetStems_of_plan hplan, Option.any_some, List.any_map, List.any_filter, List.any_eq_true]
  refine exists_congr fun f => and_congr_right fun hf => ?_
  rw [lacksName_of_plan hplan hf, Function.comp_apply]

/-! ### Generation -/

section Generation

variable {g : Generator} {d : TypeDecl} {s : Strategy} {slot : InvalidSlot}

theorem orFault_eq_ok_iff {α : Type} {x : Except Fault α} {a : α} :
    Generator.orFault x = .ok a ↔ x = .ok a :=
  mapError_eq_ok_iff

theorem orFault_ne_aborted {α : Type} {x : Except Fault α} :
    Generator.orFault x ≠ .error (.aborted slot) := by
  cases x with
  | ok a => exact fun h => nomatch h
  | error f => exact fun h => nomatch h

theorem mapError_eq_aborted_iff {α : Type} {x : Except InvalidSlot α} :
    x.mapError Failure.aborted = .error (.aborted slot) ↔ x = .error slot := by
  cases x <;> simp [Except.mapError]

/-- Faults are reported, so it is the unit alone that cuts generation short. -/
theorem generate_eq_aborted_iff :
    g.generate d s = .error (.aborted slot) ↔
      ∃ type plan, readPath d d.pathText = .ok type ∧ select d s = .ok plan ∧
        CodecUnit.ofPlan type plan = .error slot := by
  simp only [Generator.generate, bind_eq_error_iff, orFault_ne_aborted, false_or,
    orFault_eq_ok_iff, mapError_eq_aborted_iff]
  constructor
  · rintro ⟨type, htype, plan, hplan, hunit | ⟨_, _, _, _, _, _, hframe⟩⟩
    · exact ⟨type, plan, htype, hplan, hunit⟩
    · cases hframe
  · rintro ⟨type, plan, htype, hplan, hunit⟩
    exact ⟨type, htype, plan, hplan, .inl hunit⟩

theorem strategy_of_select {plan : CodecPlan} (h : select d s = .ok plan) : plan.strategy = s := by
  cases s with
  | instantiator =>
    obtain ⟨_, -, h⟩ := bind_eq_ok_iff.1 h
    cases h
    rfl
  | publicFields =>
    obtain ⟨_, -, h⟩ := bind_eq_ok_iff.1 h
    cases h
    rfl
  | polymorphic =>
    simp only [select] at h
    split at h
    · obtain ⟨_, -, h⟩ := bind_eq_ok_iff.1 h
      cases h
      rfl
    · cases h
  | singleton =>
    obtain ⟨_, -, h⟩ := bind_eq_ok_iff.1 h
    split at h
    · cases h
    · obtain ⟨_, -, h⟩ := bind_eq_ok_iff.1 h
      cases h
      rfl

/-- A codec is reported by the name of its type and by the strategy that was asked for. -/
theorem reported_of_generate {gen : Generated} (h : g.generate d s = .ok gen) :
    gen.typeName = d.displayName ∧ gen.strategy = s := by
  obtain ⟨type, -, h⟩ := bind_eq_ok_iff.1 h
  obtain ⟨plan, hselect, h⟩ := bind_eq_ok_iff.1 h
  obtain ⟨unit, -, h⟩ := bind_eq_ok_iff.1 h
  obtain ⟨codec, -, h⟩ := bind_eq_ok_iff.1 h
  obtain ⟨visibility, -, h⟩ := bind_eq_ok_iff.1 h
  cases h
  exact ⟨rfl, strategy_of_select (orFault_eq_ok_iff.1 hselect)⟩

theorem select_instantiator_eq_ok_iff {plan : InstantiatorPlan} :
    select d .instantiator = .ok (.instantiator plan) ↔ planInstantiator d = .ok plan := by
  rw [select, bind_eq_ok_iff]
  constructor
  · rintro ⟨plan', hplan, h⟩
    cases h
    exact hplan
  · intro hplan
    exact ⟨plan, hplan, rfl⟩

/-- Generation is cut short exactly where a codec that calls a function needs a slot that has no
name. -/
theorem exists_generate_aborted_iff :
    (∃ slot, g.generate d s = .error (.aborted slot)) ↔
      s = .instantiator ∧ isCutShort d = true := by
  simp only [generate_eq_aborted_iff]
  constructor
  · rintro ⟨slot, type, plan, htype, hselect, hunit⟩
    have hstrategy := strategy_of_select hselect
    cases plan with
    | instantiator plan =>
      cases hstrategy
      have hplan := select_instantiator_eq_ok_iff.1 hselect
      have hstems := (anyStem_beginsAmiss_iff hplan).2
        (exists_ofInstantiator_error_iff.1 ⟨slot, hunit⟩)
      refine ⟨rfl, ?_⟩
      rw [isCutShort, htype, hstems]
      rfl
    | publicFields plan => cases hunit
    | polymorphic dependency => cases hunit
    | singleton instancePath => cases hunit
  · rintro ⟨rfl, hshort⟩
    rw [isCutShort, Bool.and_eq_true] at hshort
    obtain ⟨type, htype⟩ := exists_of_isOk hshort.1
    cases hplan : planInstantiator d with
    | error f =>
      have hnone : offsetStems d = none := by
        rw [offsetStems, hplan]
        rfl
      rw [hnone] at hshort
      cases hshort.2
    | ok plan =>
      obtain ⟨slot, hunit⟩ := exists_ofInstantiator_error_iff.2
        ((anyStem_beginsAmiss_iff hplan).1 hshort.2)
      exact ⟨slot, type, _, htype, select_instantiator_eq_ok_iff.2 hplan, hunit⟩

end Generation

/-! ### Reports -/

/-- The codecs and the failures account for the requests one by one: each request is served with
its codec or rejected for its fault, and both lists have the order of the requests. -/
inductive Accounts (g : Generator) : List Request → List Generated → List Rejection → Prop
  | nil : Accounts g [] [] []
  | served {r : Request} {requests : List Request} {codec : Generated} {codecs : List Generated}
      {failures : List Rejection} (hcodec : g.generate r.decl r.strategy = .ok codec)
      (hrest : Accounts g requests codecs failures) :
      Accounts g (r :: requests) (codec :: codecs) failures
  | rejected {r : Request} {requests : List Request} {codecs : List Generated} {f : Fault}
      {failures : List Rejection} (hfault : g.generate r.decl r.strategy = .error (.fault f))
      (hrest : Accounts g requests codecs failures) :
      Accounts g (r :: requests) codecs (⟨r.decl.displayName, f⟩ :: failures)

section Reports

variable {g : Generator} {requests : List Request} {codecs : List Generated}
  {failures : List Rejection} {report report' : Report}

namespace Accounts

theorem length (h : Accounts g requests codecs failures) :
    codecs.length + failures.length = requests.length := by
  induction h with
  | nil => rfl
  | served hcodec hrest ih =>
    rw [List.length_cons, List.length_cons]
    omega
  | rejected hfault hrest ih =>
    rw [List.length_cons, List.length_cons]
    omega

theorem not_aborted (h : Accounts g requests codecs failures) {r : Request} (hr : r ∈ requests)
    (slot : InvalidSlot) : g.generate r.decl r.strategy ≠ .error (.aborted slot) := by
  induction h with
  | nil => cases hr
  | served hcodec hrest ih =>
    rcases List.mem_cons.1 hr with rfl | hr
    · rw [hcodec]
      exact fun h => nomatch h
    · exact ih hr
  | rejected hfault hrest ih =>
    rcases List.mem_cons.1 hr with rfl | hr
    · rw [hfault]
      exact fun h => nomatch h
    · exact ih hr

end Accounts

theorem answer_eq_ok {r : Request} (h : g.answer report r = .ok report') :
    (∃ codec, g.generate r.decl r.strategy = .ok codec ∧ report' = report.addGenerated codec) ∨
      ∃ f, g.generate r.decl r.strategy = .error (.fault f) ∧
        report' = report.addFailure ⟨r.decl.displayName, f⟩ := by
  unfold Generator.answer at h
  split at h
  · next codec hcodec =>
    cases h
    exact .inl ⟨codec, hcodec, rfl⟩
  · next f hfault =>
    cases h
    exact .inr ⟨f, hfault, rfl⟩
  · cases h

theorem exists_answer_iff {r : Request} :
    (∃ report', g.answer report r = .ok report') ↔
      ¬ ∃ slot, g.generate r.decl r.strategy = .error (.aborted slot) := by
  unfold Generator.answer
  cases hgenerate : g.generate r.decl r.strategy with
  | ok codec => simp
  | error failure => cases failure <;> simp

/-- What a run adds to a report accounts for its requests. -/
theorem accounts_of_answers (h : requests.foldlM g.answer report = .ok report') :
    ∃ codecs failures, Accounts g requests codecs failures ∧
      report' = ⟨report.generated ++ codecs, report.failures ++ failures⟩ := by
  -- a request adds to what those before it have left, so the report is any
  induction requests generalizing report with
  | nil =>
    cases h
    exact ⟨[], [], .nil, by simp⟩
  | cons r requests ih =>
    rw [List.foldlM_cons] at h
    obtain ⟨next, hanswer, hrest⟩ := bind_eq_ok_iff.1 h
    obtain ⟨codecs, failures, haccounts, rfl⟩ := ih hrest
    rcases answer_eq_ok hanswer with ⟨codec, hcodec, rfl⟩ | ⟨f, hfault, rfl⟩
    · refine ⟨codec :: codecs, failures, .served hcodec haccounts, ?_⟩
      simp [Report.addGenerated]
    · refine ⟨codecs, ⟨r.decl.displayName, f⟩ :: failures, .rejected hfault haccounts, ?_⟩
      simp [Report.addFailure]

theorem exists_answers
    (h : ∀ r ∈ requests, ¬ ∃ slot, g.generate r.decl r.strategy = .error (.aborted slot))
    (report : Report) : ∃ report', requests.foldlM g.answer report = .ok report' := by
  induction requests generalizing report with
  | nil => exact ⟨report, rfl⟩
  | cons r requests ih =>
    rw [List.forall_mem_cons] at h
    obtain ⟨next, hanswer⟩ := exists_answer_iff.2 h.1
    obtain ⟨report', hrest⟩ := ih h.2 next
    exact ⟨report', bind_eq_ok_iff.2 ⟨next, hanswer, hrest⟩⟩

theorem accounts_of_generateBatch (h : g.generateBatch requests = .ok report) :
    Accounts g requests report.generated report.failures := by
  obtain ⟨codecs, failures, haccounts, rfl⟩ := accounts_of_answers h
  exact haccounts

/-- The codec that a request is served with. -/
def served? (g : Generator) (r : Request) : Option Generated :=
  (g.generate r.decl r.strategy).toOption

/-- How a request that fails is reported. -/
def rejected? (g : Generator) (r : Request) : Option Rejection :=
  match g.generate r.decl r.strategy with
  | .error (.fault f) => some ⟨r.decl.displayName, f⟩
  | _ => none

theorem served?_eq_some_iff {r : Request} {codec : Generated} :
    served? g r = some codec ↔ g.generate r.decl r.strategy = .ok codec := by
  rw [served?]
  cases g.generate r.decl r.strategy <;> simp [Except.toOption]

theorem Accounts.eq_filterMap (h : Accounts g requests codecs failures) :
    codecs = requests.filterMap (served? g) ∧ failures = requests.filterMap (rejected? g) := by
  induction h with
  | nil => exact ⟨rfl, rfl⟩
  | served hcodec _ ih =>
    rw [ih.1, ih.2]
    constructor
    · rw [List.filterMap_cons, served?, hcodec]
      rfl
    · rw [List.filterMap_cons, rejected?, hcodec]
  | rejected hfault _ ih =>
    rw [ih.1, ih.2]
    constructor
    · rw [List.filterMap_cons, served?, hfault]
      rfl
    · rw [List.filterMap_cons, rejected?, hfault]

/-- What becomes of a request does not depend on the others. -/
theorem generateBatch_eq
    (h : ∀ r ∈ requests, ¬ ∃ slot, g.generate r.decl r.strategy = .error (.aborted slot)) :
    g.generateBatch requests =
      .ok ⟨requests.filterMap (served? g), requests.filterMap (rejected? g)⟩ := by
  obtain ⟨report, hreport⟩ := exists_answers h {}
  obtain ⟨hcodecs, hfailures⟩ := (accounts_of_generateBatch hreport).eq_filterMap
  rw [← hcodecs, ← hfailures]
  exact hreport

end Reports

/-- Generation ends in a codec or in a fault, unless a codec that calls a function needs a slot
that has no name.  A batch is answered exactly if no request is of that kind, and the report has
each request once, under the codecs or under the failures, in the order of the requests. -/
theorem generateBatch_accounts (g : Generator) (requests : List Request) :
    (∀ d s, (∃ slot, g.generate d s = .error (.aborted slot)) ↔
      s = .instantiator ∧ isCutShort d = true) ∧
    ((∃ report, g.generateBatch requests = .ok report) ↔
      ∀ r ∈ requests, ¬ (r.strategy = .instantiator ∧ isCutShort r.decl = true)) ∧
    ∀ report, g.generateBatch requests = .ok report →
      Accounts g requests report.generated report.failures ∧
      report.generated.length + report.failures.length = requests.length := by
  refine ⟨fun d s => exists_generate_aborted_iff, ?_, fun report hreport => ?_⟩
  · simp only [← exists_generate_aborted_iff (g := g)]
    constructor
    · rintro ⟨report, hreport⟩ r hr ⟨slot, haborted⟩
      exact (accounts_of_generateBatch hreport).not_aborted hr slot haborted
    · exact fun h => exists_answers h {}
  · have haccounts := accounts_of_generateBatch hreport
    exact ⟨haccounts, haccounts.length⟩

/-- A request that is served. -/
def pointRequest : Request where
  decl := { name := "Point", fields := [{ name := "x", type := "i32", isPublic := true }] }

/-- A request that fails: neither constructor is marked. -/
def shapeRequest : Request where
  decl := { name := "Shape", constructors := [{ name := "square" }, { name := "circle" }] }

/-- A request for a type with a private field that is named by a number. -/
def oddRequest : Request where
  decl := { name := "Odd", fields := [{ name := "_0", type := "u64" }] }

/-- A request that fails is reported among the others, and one that is cut short leaves no
report. -/
theorem generateBatch_accounts_requests :
    (∃ report, (Generator.ofRuntime defaultRuntime).generateBatch [shapeRequest, pointRequest] =
        .ok report ∧
      Accounts (Generator.ofRuntime defaultRuntime) [shapeRequest, pointRequest] report.generated
        report.failures) ∧
    ¬ ∃ report, (Generator.ofRuntime defaultRuntime).generateBatch
      [shapeRequest, pointRequest, oddRequest] = .ok report := by
  constructor
  · obtain ⟨-, hanswered, haccounts⟩ :=
      generateBatch_accounts (Generator.ofRuntime defaultRuntime) [shapeRequest, pointRequest]
    obtain ⟨report, hreport⟩ := hanswered.2 (by decide +kernel)
    exact ⟨report, hreport, (haccounts report hreport).1⟩
  · obtain ⟨-, hanswered, -⟩ := generateBatch_accounts (Generator.ofRuntime defaultRuntime)
      [shapeRequest, pointRequest, oddRequest]
    have hshort : oddRequest.strategy = .instantiator ∧ isCutShort oddRequest.decl = true := by
      decide +kernel
    have hmem : oddRequest ∈ [shapeRequest, pointRequest, oddRequest] := .tail _ (.tail _ (.head _))
    exact fun hreport => hanswered.1 hreport oddRequest hmem hshort

end CodecForge.Code
