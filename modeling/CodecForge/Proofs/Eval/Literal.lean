import CodecForge.Proofs.Code.Batch
import CodecForge.Proofs.Eval.Hygiene
import CodecForge.Proofs.Plan.Reach

/-!
# Values that are written out

Where nothing is declared that makes a value, it is written out with its fields.  Each field becomes
a parameter, whose name is the identifier that the name of the field is read as; and by the text of
that identifier a field is searched for again.  The field itself is found exactly where its name is
spelled as its identifier.  With blanks or comments around the name, a field of a base is read in
its place, or there is none.
-/

namespace CodecForge.Plan

open CodecForge.Schema CodecForge.Source CodecForge.Code

variable {d : TypeDecl} {ids : List Ident} {f : FieldDecl} {w : WireField} {p : Param}
  {c : Construction} {plan : InstantiatorPlan}

/-! ### Fields that travel -/

/-- Values of the type are written out and their fields are read as such; the names of these are
identifiers, and no two of them the same. -/
structure IsWrittenOut (d : TypeDecl) (ids : List Ident) : Prop where
  constructors : d.constructors = []
  factories : d.factories = []
  convention : d.accessorConvention = false
  named : List.Forall₂ (fun f i => Ident.parse? f.name = some i) (instanceFields d.toLevel) ids
  distinct : (ids.map Ident.bare).Nodup

/-- The fields of values that the bytes hold. -/
def travelling (d : TypeDecl) : List FieldDecl :=
  (instanceFields d.toLevel).filter fun f => !f.isDependency

/-- The field travels under the identifier that its name is, with its type. -/
structure TravelsAs (f : FieldDecl) (w : WireField) : Prop where
  name : Ident.parse? f.name = some ⟨w.name⟩
  binding : w.binding = argumentBinding ⟨w.name⟩
  type : Ty.parse? f.type = some w.type
  kind : Kind.of w.type = .ok w.kind

/-- The way to a field of the type itself. -/
def ownReach (d : TypeDecl) (f : FieldDecl) (w : WireField) : Reach :=
  if f.isPublic then .publicField [⟨w.name⟩] else .rawOffset d.displayName [⟨w.name⟩] w.type

/-- What is read for a field: the field itself if its name is spelled as its identifier, and else
the nearest field of this name in a base. -/
inductive ReadFrom (d : TypeDecl) (f : FieldDecl) (w : WireField) : Prop
  | itself (hname : f.name = w.name) (hreach : w.reach = ownReach d f w)
  | base {hops : List Hop} {declaring : Level} {f' : FieldDecl} {path : List Ident}
      (hname : f.name ≠ w.name) (hhops : hops ≠ [])
      (hway : Way w.name d.toLevel d.ancestors hops declaring f')
      (hpath : List.Forall₂ (fun hop i => Ident.parse? hop.name = some i)
        (followed w.name hops declaring) path)
      (hreach : w.reach = .publicField path ∨ ∃ type, Ty.parse? f'.type = some type ∧
        w.reach = .rawOffset declaring.displayName path type)

theorem mem_instanceFields {level : Level} :
    f ∈ instanceFields level ↔ f ∈ level.fields ∧ f.isStatic = false := by
  simp [instanceFields]

theorem mem_travelling :
    f ∈ travelling d ↔ f ∈ instanceFields d.toLevel ∧ f.isDependency = false := by
  simp [travelling]

/-! ### Names of fields -/

namespace IsWrittenOut

variable (hd : IsWrittenOut d ids)

include hd

theorem chosen : Chosen d none := by
  refine .literal ?_ hd.constructors
  rw [markedMakers, hd.constructors, hd.factories]
  rfl

/-- A field is known by the identifier that its name is. -/
theorem eq_of_parse {f' : FieldDecl} (hf : f ∈ instanceFields d.toLevel)
    (hf' : f' ∈ instanceFields d.toLevel) (h : Ident.parse? f'.name = Ident.parse? f.name) :
    f' = f := by
  have hmap : (instanceFields d.toLevel).map (fun f => (Ident.parse? f.name).map Ident.bare) =
      ids.map fun i => some i.bare :=
    map_eq_map_of_forall₂ (hd.named.imp fun f i hi => by rw [hi]; rfl)
  have hdistinct : ((instanceFields d.toLevel).map
      fun f => (Ident.parse? f.name).map Ident.bare).Nodup := by
    have hsome : (ids.map fun i => some i.bare) = (ids.map Ident.bare).map some := by
      rw [List.map_map]
      rfl
    rw [hmap, hsome]
    exact hd.distinct.map (Option.some_injective _)
  exact List.inj_on_of_nodup_map hdistinct hf' hf (by rw [h])

/-- The text of the identifier is the name of the field itself or of none in the type. -/
theorem instanceField?_eq (hf : f ∈ instanceFields d.toLevel) {i : Ident}
    (hi : Ident.parse? f.name = some i) :
    instanceField? d.toLevel i.text = if f.name = i.text then some f else none := by
  cases hfound : instanceField? d.toLevel i.text with
  | none =>
    rw [if_neg]
    intro hname
    have hnone := List.find?_eq_none.1 hfound f (mem_instanceFields.1 hf).1
    simp [hname, (mem_instanceFields.1 hf).2] at hnone
  | some f' =>
    obtain ⟨hmem, hname⟩ := mem_of_instanceField? hfound
    have hstatic := List.find?_some hfound
    simp only [Bool.and_eq_true, Bool.not_eq_true'] at hstatic
    have hsame : f' = f := by
      refine hd.eq_of_parse hf (mem_instanceFields.2 ⟨hmem, hstatic.2⟩) ?_
      rw [hname, parse_text hi, hi]
    rw [if_pos (hsame ▸ hname), hsame]

/-! ### Construction -/

theorem makes (hc : resolve d = .ok c) : Makes d none c := by
  rw [resolve_of_factories (by simp [hd.factories]), chooseMaker_of_chosen hd.chosen] at hc
  exact make_settle_eq_ok_iff.1 hc

/-- No parameter is in want of a field for its type. -/
theorem resolve_ne_fieldNotFound {e : Fault} (h : resolve d = .error e) (name : String) :
    e.cause ≠ .fieldNotFound name := by
  rw [resolve_of_factories (by simp [hd.factories]), chooseMaker_of_chosen hd.chosen] at h
  obtain ⟨cause, hcause, rfl⟩ := make_settle_eq_error_iff.1 h
  intro hname
  cases show cause = .fieldNotFound name from hname
  cases hcause with
  | callee h => cases h
  | @param before after q _ hcallee hsingle hparams hbefore h =>
    have hq : q ∈ givenParams d none := hparams ▸ List.mem_append_right before List.mem_cons_self
    obtain ⟨f, -, rfl⟩ := List.mem_map.1 hq
    cases h with
    | missing hnone => cases hnone
  | dependency hcallee hsingle htyped hdependency h =>
    obtain ⟨text, -, ⟨-, h⟩ | ⟨t, -, -, h⟩⟩ := h <;> cases h

/-- The parameters are the fields, each under its identifier. -/
theorem params (hc : resolve d = .ok c) :
    List.Forall₂ (fun f p => Ident.parse? f.name = some p.name ∧ Ty.parse? f.type = some p.type ∧
      p.isDependency = f.isDependency) (instanceFields d.toLevel) c.params := by
  have htyped := (hd.makes hc).params
  rw [givenParams, List.forall₂_map_left_iff] at htyped
  refine htyped.imp fun f p hp => ⟨hp.name, ?_, hp.isDependency⟩
  obtain ⟨text, hsource, hread⟩ := hp.type
  cases hsource with
  | own htext =>
    cases htext
    exact hread
  | field hnone => cases hnone

theorem params_eq_ids (hc : resolve d = .ok c) : c.params.map Param.name = ids := by
  have hparams := map_eq_map_of_forall₂ ((hd.params hc).imp fun f p hp => hp.1)
  have hnamed := map_eq_map_of_forall₂ hd.named
  have hsome : (c.params.map Param.name).map some = ids.map some := by
    rw [List.map_map, ← hnamed, hparams]
    rfl
  exact List.map_injective_iff.2 (Option.some_injective _) hsome

end IsWrittenOut

/-! ### Values that travel -/

section Values

theorem Way.of_nil {name : String} {level declaring : Level} {es : List Embedding}
    (h : Way name level es [] declaring f) : Plan.instanceField? level name = some f := by
  cases h with
  | here h => exact h

theorem Way.of_here {name : String} {level declaring : Level} {es : List Embedding}
    {hops : List Hop} {f' : FieldDecl} (h : Way name level es hops declaring f')
    (hf : Plan.instanceField? level name = some f) : hops = [] ∧ declaring = level ∧ f' = f := by
  cases h with
  | here h =>
    rw [hf] at h
    cases h
    exact ⟨rfl, rfl, rfl⟩
  | further h =>
    rw [hf] at h
    cases h

theorem reachField_eq_error {e : Fault} {name : String} (h : reachField d name = .error e)
    {missing : String} (he : e.cause = .fieldNotFound missing) :
    name = missing ∧ findField d name = none := by
  unfold reachField at h
  split at h
  · next hnone =>
    cases h
    cases he
    exact ⟨rfl, hnone⟩
  · exfalso
    have hread : ∀ {α : Type} {parse? : String → Option α} {text : String},
        readOr d parse? text ≠ .error e := by
      intro α parse? text h
      rw [(readOr_eq_error_iff.1 h).2] at he
      cases he
    obtain h | ⟨path, -, h⟩ := bind_eq_error_iff.1 h
    · obtain ⟨-, hop, -, -, -, h⟩ := mapM_eq_error_iff.1 h
      exact hread h
    · split at h
      · cases h
      · obtain h | ⟨type, -, h⟩ := bind_eq_error_iff.1 h
        · exact hread h
        · cases h

/-- A parameter that is in want of a field has a name that no field is found by. -/
theorem planArgument_eq_error (hplain : d.accessorConvention = false) {e : Fault}
    (h : planArgument d p = .error e) {missing : String} (he : e.cause = .fieldNotFound missing) :
    p.name.text = missing ∧ findField d p.name.text = none := by
  obtain h | ⟨kind, -, h⟩ := bind_eq_error_iff.1 h
  · unfold kindOf at h
    split at h
    · cases h
    · cases h
      cases he
  · obtain h | ⟨reach, -, h⟩ := bind_eq_error_iff.1 h
    · rw [Plan.reach, if_neg (by simp [hplain])] at h
      exact reachField_eq_error h he
    · cases h

theorem findField_ne_none {name : String} (h : instanceField? d.toLevel name = some f) :
    findField d name ≠ none := by
  unfold findField
  cases d.ancestors <;> simp [findFrom, h]

/-- A field whose name is spelled as its identifier is found in the type itself, and any other in a
base or nowhere. -/
theorem IsWrittenOut.travels (hd : IsWrittenOut d ids) (hf : f ∈ instanceFields d.toLevel)
    (hname : Ident.parse? f.name = some p.name) (htype : Ty.parse? f.type = some p.type)
    (h : planArgument d p = .ok w) : TravelsAs f w ∧ ReadFrom d f w := by
  have hfield := hd.instanceField?_eq hf hname
  obtain ⟨kind, hkind, h⟩ := bind_eq_ok_iff.1 h
  obtain ⟨reach, hreach, h⟩ := bind_eq_ok_iff.1 h
  cases h
  have hof : Kind.of p.type = .ok kind := by
    unfold kindOf at hkind
    split at hkind
    · next hof =>
      cases hkind
      exact hof
    · cases hkind
  refine ⟨⟨hname, rfl, htype, hof⟩, ?_⟩
  rw [Plan.reach, if_neg (by simp [hd.convention])] at hreach
  obtain ⟨found, hops, path, hfollows, hpath, hform⟩ := exists_follows_of_reachField hreach
  by_cases hspelled : f.name = p.name.text
  · rw [if_pos hspelled] at hfield
    obtain ⟨hhops, hdeclaring, hfound⟩ := hfollows.way.of_here hfield
    subst hhops
    rw [hdeclaring] at hpath hform
    rw [hfound] at hform
    have hone : path = [p.name] := by
      obtain ⟨i, rest, hi, hrest, rfl⟩ := List.forall₂_cons_left_iff.1 hpath
      cases hrest
      rw [parse_text hname] at hi
      cases hi
      rfl
    have hpublic : found.isPublic = true ↔ f.isPublic = true := by
      rw [hfollows.isPublic, hfound]
      simp
    refine .itself hspelled ?_
    rw [ownReach]
    obtain ⟨hopen, rfl⟩ | ⟨hclosed, type, htype', rfl⟩ := hform
    · rw [if_pos (hpublic.1 hopen), hone]
    · rw [if_neg (by simp [← hpublic, hclosed]), hone]
      rw [htype] at htype'
      cases htype'
      rfl
  · rw [if_neg hspelled] at hfield
    refine .base hspelled ?_ hfollows.way hpath ?_
    · rintro rfl
      rw [hfollows.way.of_nil] at hfield
      cases hfield
    · exact hform.imp And.right And.right

end Values

end CodecForge.Plan

namespace CodecForge.Eval

open CodecForge.Schema CodecForge.Source CodecForge.Plan CodecForge.Code

variable {d : TypeDecl} {ids : List Ident} {plan : InstantiatorPlan}

/-! ### The plan and its decoder -/

/-- The argument for a field: the name that holds its value, or the dependency. -/
structure ArgumentFor (f : FieldDecl) (arg : Ident × Argument) : Prop where
  name : Ident.parse? f.name = some arg.1
  value : arg.2 = if f.isDependency then .dependency else .bound (argumentBinding arg.1)

theorem forall₂_wire (hd : IsWrittenOut d ids) (hplan : planInstantiator d = .ok plan) :
    List.Forall₂ (fun f w => TravelsAs f w ∧ ReadFrom d f w) (travelling d) plan.wire := by
  obtain ⟨hc, hwire⟩ := planInstantiator_ok hplan
  have hparams := List.rel_filter (p := fun f : FieldDecl => !f.isDependency)
    (q := fun p : Param => !p.isDependency)
    (fun f p hp => by simp only [hp.2.2]) (hd.params hc)
  refine forall₂_trans hparams hwire fun f hf p w hp hw => ?_
  exact hd.travels (mem_travelling.1 hf).1 hp.1 hp.2.1 hw

theorem forall₂_arguments (hd : IsWrittenOut d ids) (hplan : planInstantiator d = .ok plan) :
    List.Forall₂ ArgumentFor (instanceFields d.toLevel)
      (arguments plan.construction.params plan.wire) := by
  obtain ⟨hc, hwire⟩ := planInstantiator_ok hplan
  rw [arguments_eq_map hwire, List.forall₂_map_right_iff]
  refine (hd.params hc).imp fun f p hp => ⟨hp.1, ?_⟩
  rw [argumentOf, hp.2.2]

/-- What is found missing is a field that travels, by the identifier that its name is. -/
theorem exists_missing (hd : IsWrittenOut d ids) {e : Fault} (h : planInstantiator d = .error e)
    {name : String} (he : e.cause = .fieldNotFound name) :
    ∃ f ∈ travelling d, Ident.parse? f.name = some ⟨name⟩ ∧ f.name ≠ name ∧
      findField d name = none := by
  obtain h | ⟨c, hc, h⟩ := bind_eq_error_iff.1 h
  · exact absurd he (hd.resolve_ne_fieldNotFound h name)
  obtain h | ⟨wire, -, h⟩ := bind_eq_error_iff.1 h
  · obtain ⟨before, p, after, hwire, -, hp⟩ := mapM_eq_error_iff.1 h
    obtain ⟨rfl, hnone⟩ := planArgument_eq_error hd.convention hp he
    have hmem : p ∈ c.wireParams := hwire ▸ List.mem_append_right before List.mem_cons_self
    rw [Construction.wireParams, List.mem_filter, Bool.not_eq_true'] at hmem
    obtain ⟨f, hf, hname, -, hdependency⟩ := forall₂_exists_left (hd.params hc) hmem.1
    refine ⟨f, mem_travelling.2 ⟨hf, hdependency ▸ hmem.2⟩, hname, fun hspelled => ?_, hnone⟩
    have hfield := hd.instanceField?_eq hf hname
    rw [if_pos hspelled] at hfield
    exact findField_ne_none hfield hnone
  · split at h
    · cases h
    · obtain h | ⟨dependency, -, h⟩ := bind_eq_error_iff.1 h
      · obtain ⟨-, -, hok⟩ | ⟨-, -, t, hok⟩ | ⟨text, -, -, herror⟩ := typeDependency_cases (d := d)
        · rw [hok] at h
          cases h
        · rw [hok] at h
          cases h
        · rw [herror] at h
          cases h
          cases he
      · cases h

theorem readBehind_of_writtenOut (hd : IsWrittenOut d ids) (hplan : planInstantiator d = .ok plan)
    {before after : List WireField} {w : WireField} (hwire : plan.wire = before ++ w :: after)
    (hvisible : w.binding.text = dependencyName → plan.construction.dependency? = none) :
    ReadBehind (plan.wire.map decodeField ++ dependencySteps plan.construction) before.length
      w := by
  have hw : w ∈ plan.wire := hwire ▸ List.mem_append_right before List.mem_cons_self
  obtain ⟨p, -, -, hpw⟩ := exists_param_of_wire hplan hw
  have hnames : (plan.construction.params.map fun p => p.name.bare).Nodup := by
    have hdistinct := hd.distinct
    rw [← hd.params_eq_ids (planInstantiator_ok hplan).1, List.map_map] at hdistinct
    exact hdistinct
  have hbindings := nodup_bindings hplan hnames
  have hhidden : ¬ IsHidden plan.construction p := by
    rintro ⟨hname, hsome⟩
    rw [hvisible ((bindingText_eq_dependencyName_iff hpw).2 hname)] at hsome
    cases hsome
  rw [hwire] at hbindings ⊢
  obtain ⟨hafter, hdependency⟩ := not_rebinds_of_not_isHidden hpw hbindings hhidden
  exact readBehind_of_not_rebinds hafter hdependency

/-- A value that is written out is made of what was read for its fields, in their order, each under
its identifier and with its type.  A field is read itself exactly if its name is spelled as its
identifier.  For any other one a field of a base is read that is named by the identifier; only if
there is none, a field is found missing.  The decoder gives each field the value that was read for
it, unless the dependency takes its name. -/
theorem literal_rebuilds (hd : IsWrittenOut d ids) :
    (∀ e name, select d .instantiator = .error e → e.cause = .fieldNotFound name →
      ∃ f ∈ travelling d, Ident.parse? f.name = some ⟨name⟩ ∧ f.name ≠ name ∧
        ∀ g, ¬ IsNearest d name g) ∧
    ∀ plan, select d .instantiator = .ok (.instantiator plan) →
      List.Forall₂ (fun f w => TravelsAs f w ∧ ReadFrom d f w) (travelling d) plan.wire ∧
      ∀ type unit, ofInstantiator type plan = .ok unit → ∃ steps args,
        unit.decode = .steps steps (.make type .structLiteral args false) ∧
        List.Forall₂ ArgumentFor (instanceFields d.toLevel) args ∧
        ∀ before w after, plan.wire = before ++ w :: after →
          (w.binding.text = dependencyName → plan.construction.dependency? = none) →
          ReadBehind steps before.length w := by
  constructor
  · intro e name h he
    obtain h | ⟨plan, -, h⟩ := bind_eq_error_iff.1 h
    · obtain ⟨f, hf, hname, hspelled, hnone⟩ := exists_missing hd h he
      exact ⟨f, hf, hname, hspelled, findField_eq_none_iff.1 hnone⟩
    · cases h
  · intro plan hselect
    have hplan := select_instantiator_eq_ok_iff.1 hselect
    refine ⟨forall₂_wire hd hplan, fun type unit hunit => ?_⟩
    have hdecode := (ofInstantiator_ok hunit).2
    have hcallee := (hd.makes (planInstantiator_ok hplan).1).callee
    generalize hmaker : plan.construction.maker = maker at hcallee hdecode
    generalize hfailure : plan.construction.failure = failure at hcallee hdecode
    cases hcallee
    exact ⟨_, _, hdecode, forall₂_arguments hd hplan,
      fun before w after hwire => readBehind_of_writtenOut hd hplan hwire⟩

/-- A point with a blank on either side of the name of its field. -/
def spacedPoint : TypeDecl where
  name := "Point"
  fields := [{ name := " x ", type := "i32" }]

/-- A circle with such a field, and with a shape that has one of the same identifier. -/
def spacedCircle : TypeDecl where
  name := "Circle"
  fields := [{ name := "base", type := "Shape" }, { name := " id ", type := "u32" }]
  ancestors := [{ field := "base"
                  base := { name := "Shape"
                            fields := [{ name := "id", type := "u16", isPublic := true }] } }]

/-- The field of the point is found missing, and for that of the circle the one of the shape is
read. -/
theorem literal_rebuilds_spaced :
    (∃ e, select spacedPoint .instantiator = .error e ∧ e.cause = .fieldNotFound "x" ∧
      ∃ f ∈ travelling spacedPoint, Ident.parse? f.name = some ⟨"x"⟩ ∧ f.name ≠ "x") ∧
    ∃ plan w, select spacedCircle .instantiator = .ok (.instantiator plan) ∧ w ∈ plan.wire ∧
      TravelsAs { name := " id ", type := "u32" } w ∧
      ∃ hops declaring f, hops ≠ [] ∧
        Way w.name spacedCircle.toLevel spacedCircle.ancestors hops declaring f := by
  have hx : Ident.parse? " x " = some ⟨"x"⟩ := by decide +kernel
  have hbase : Ident.parse? "base" = some ⟨"base"⟩ := by decide +kernel
  have hid : Ident.parse? " id " = some ⟨"id"⟩ := by decide +kernel
  have hpoint : IsWrittenOut spacedPoint [⟨"x"⟩] :=
    ⟨rfl, rfl, rfl, .cons hx .nil, by decide⟩
  have hcircle : IsWrittenOut spacedCircle [⟨"base"⟩, ⟨"id"⟩] :=
    ⟨rfl, rfl, rfl, .cons hbase (.cons hid .nil), by decide⟩
  constructor
  · have hselect : select spacedPoint .instantiator =
        .error (fault spacedPoint (.fieldNotFound "x")) := rfl
    obtain ⟨f, hf, hname, hspelled, -⟩ := (literal_rebuilds hpoint).1 _ _ hselect rfl
    exact ⟨_, hselect, rfl, f, hf, hname, hspelled⟩
  · obtain ⟨plan, hplan⟩ := exists_of_isOk (x := planInstantiator spacedCircle) (by decide +kernel)
    have hselect := select_instantiator_eq_ok_iff.2 hplan
    obtain ⟨hwire, -⟩ := (literal_rebuilds hcircle).2 plan hselect
    have hmem : { name := " id ", type := "u32" } ∈ travelling spacedCircle := .tail _ (.head _)
    obtain ⟨w, hw, htravels, hread⟩ := forall₂_exists_right hwire hmem
    refine ⟨plan, w, hselect, hw, htravels, ?_⟩
    cases hread with
    | itself hname =>
      have hraw := hid.symm.trans htravels.name
      rw [← hname] at hraw
      exact absurd hraw (by decide)
    | base hname hhops hway => exact ⟨_, _, _, hhops, hway⟩

end CodecForge.Eval
