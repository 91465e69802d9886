import Mathlib.Data.List.Perm.Subperm
import Mathlib.Data.List.Sigma
import CodecForge.Proofs.Code.Generation
import CodecForge.Proofs.Plan.Lookup
import CodecForge.Proofs.Wire.Records

/-!
# Plans that assign the public fields

What a plan of public fields covers, told from the declaration: the public fields that hold data,
through all the bases that are embedded in public fields.  In a value of the type the paths to these
fields exist, and none of them leads through the end of another.
-/

namespace CodecForge.Plan

open CodecForge.Schema CodecForge.Source CodecForge.Code CodecForge.Wire

variable {d : TypeDecl} {level : Level} {es rest : List Embedding} {e : Embedding}
  {f f' : FieldDecl} {v : Value} {p q : List String}

/-! ### Fields that are declared -/

/-- The name that the field has in values; an identifier that is marked as raw is named without
the mark. -/
def fieldName (f : FieldDecl) : String := ((Ident.parse? f.name).map Ident.bare).getD f.name

/-- The field embeds the nearest of the bases. -/
def Embeds (es : List Embedding) (f : FieldDecl) : Prop := ∃ e ∈ es.head?, e.field = f.name

/-- The type of the field has nothing to write. -/
def HoldsNothing (d : TypeDecl) (f : FieldDecl) : Prop :=
  ∃ type, readType d f.type = .ok type ∧ Kind.of type = .ok .void

/-- The field is public and part of what travels. -/
structure IsOpen (f : FieldDecl) : Prop where
  isPublic : f.isPublic = true
  notStatic : f.isStatic = false
  notDependency : f.isDependency = false

theorem IsOpen.mem_instanceFields (h : IsOpen f) (hf : f ∈ level.fields) :
    f ∈ instanceFields level := by
  rw [instanceFields, List.mem_filter, h.notStatic]
  exact ⟨hf, rfl⟩

/-- Of an open field only the last of the reasons to omit it can hold. -/
theorem IsOpen.of_omitted {P : Prop} (h : IsOpen f)
    (homitted : f.isPublic = false ∨ f.isDependency = true ∨ P) : P := by
  simpa [h.isPublic, h.notDependency] using homitted

theorem fieldName_ne_of_notMem {name : String} (hf : f ∈ instanceFields level)
    (h : name ∉ (instanceFields level).map fieldName) : fieldName f ≠ name := by
  rintro rfl
  exact h (List.mem_map_of_mem hf)

theorem fieldName_of_readIdent {name : Ident} (h : readIdent d f.name = .ok name) :
    fieldName f = name.bare := by
  unfold readIdent readOr at h
  unfold fieldName
  split at h
  · next hparse =>
    cases h
    rw [hparse]
    rfl
  · cases h

theorem kindOf_eq_ok_iff {field : String} {type : Ty} {kind : Kind} :
    kindOf d field type = .ok kind ↔ Kind.of type = .ok kind := by
  unfold kindOf
  split <;> simp_all

/-! ### Values of a type -/

/-- The value is a record whose fields have distinct names, among them one for each field that
values of the level have. -/
structure HasFields (level : Level) (v : Value) : Prop where
  nodup_names : v.names.Nodup
  subperm_names : ((instanceFields level).map fieldName).Subperm v.names

/-- The value is one of the type that a level with the bases below it makes up: it has the fields
of the level, and in the field that embeds the base a value of the base. -/
def IsInstance : Level → List Embedding → Value → Prop
  | level, [], v => HasFields level v
  | level, e :: rest, v =>
    HasFields level v ∧
      ∀ f ∈ instanceFields level, f.name = e.field →
        IsInstance e.base rest (v.field (fieldName f))

theorem IsInstance.hasFields (h : IsInstance level es v) : HasFields level v := by
  cases es with
  | nil => exact h
  | cons e rest => exact h.1

namespace HasFields

theorem mem_names (h : HasFields level v) (hf : f ∈ instanceFields level) :
    fieldName f ∈ v.names :=
  h.subperm_names.subset (List.mem_map_of_mem hf)

/-- Since a record has each name once, fields that are declared have different names. -/
theorem eq_or_fieldName_ne (h : HasFields level v) (hf : f ∈ instanceFields level) :
    ∀ f' ∈ instanceFields level, f = f' ∨ fieldName f ≠ fieldName f' := by
  intro f' hf'
  have hnodup : ((instanceFields level).map fieldName).Nodup := by
    obtain ⟨names, hperm, hsublist⟩ := h.subperm_names
    exact hperm.nodup_iff.1 (hsublist.nodup h.nodup_names)
  exact or_iff_not_imp_right.2 fun hname =>
    List.inj_on_of_nodup_map hnodup hf hf' (not_not.1 hname)

end HasFields

/-! ### What is covered -/

/-- The paths to the public fields that hold data, through the bases that are embedded in public
fields. -/
inductive Covered (d : TypeDecl) : Level → List Embedding → List String → Prop
  | value {level : Level} {es : List Embedding} {f : FieldDecl} (hf : f ∈ level.fields)
    (hopen : IsOpen f) (hembeds : ¬ Embeds es f) (hholds : ¬ HoldsNothing d f) :
    Covered d level es [fieldName f]
  | base {level : Level} {e : Embedding} {rest : List Embedding} {f : FieldDecl}
    {p : List String} (hf : f ∈ level.fields) (hopen : IsOpen f) (hname : e.field = f.name)
    (hbase : Covered d e.base rest p) : Covered d level (e :: rest) (fieldName f :: p)

/-- The paths to and into the fields that do not travel: private ones, dependencies, those with
nothing to write, and what is no field of a value but a member of the type. -/
inductive Omitted (d : TypeDecl) : Level → List Embedding → List String → Prop
  | field {level : Level} {es : List Embedding} {f : FieldDecl} (hf : f ∈ instanceFields level)
    (homitted : f.isPublic = false ∨ f.isDependency = true ∨ ¬ Embeds es f ∧ HoldsNothing d f)
    (below : List String) : Omitted d level es (fieldName f :: below)
  | static {level : Level} {es : List Embedding} {f : FieldDecl} (hf : f ∈ level.fields)
    (hstatic : f.isStatic = true) (hname : fieldName f ∉ (instanceFields level).map fieldName)
    (below : List String) : Omitted d level es (fieldName f :: below)
  | base {level : Level} {e : Embedding} {rest : List Embedding} {f : FieldDecl}
    {p : List String} (hf : f ∈ instanceFields level) (hname : e.field = f.name)
    (hbase : Omitted d e.base rest p) : Omitted d level (e :: rest) (fieldName f :: p)

theorem embeds_cons_iff : Embeds (e :: rest) f ↔ e.field = f.name := by
  simp [Embeds]

theorem not_embeds_nil : ¬ Embeds [] f := by
  simp [Embeds]

theorem Covered.hasPath (h : Covered d level es p) (hv : IsInstance level es v) :
    v.HasPath p := by
  induction h generalizing v with
  | value hf hopen => exact ⟨hv.hasFields.mem_names (hopen.mem_instanceFields hf), trivial⟩
  | base hf hopen hname _ ih =>
    have hfield := hopen.mem_instanceFields hf
    exact ⟨hv.1.mem_names hfield, ih (hv.2 _ hfield hname.symm)⟩

/-- A field is covered once, as a value or through the base in it. -/
theorem Covered.eq_or_apart (hp : Covered d level es p) (hq : Covered d level es q)
    (hv : IsInstance level es v) : p = q ∨ Value.Apart p q := by
  -- paths that begin with different fields are apart, so only two that begin with one field matter
  induction hp generalizing q v with
  | value hf hopen hembeds _ =>
    have hfield := hv.hasFields.eq_or_fieldName_ne (hopen.mem_instanceFields hf)
    cases hq with
    | value hf' hopen' =>
      rcases hfield _ (hopen'.mem_instanceFields hf') with rfl | hne
      · exact .inl rfl
      · exact .inr (Value.apart_of_ne hne)
    | base hf' hopen' hname =>
      rcases hfield _ (hopen'.mem_instanceFields hf') with rfl | hne
      · exact absurd (embeds_cons_iff.2 hname) hembeds
      · exact .inr (Value.apart_of_ne hne)
  | base hf hopen hname _ ih =>
    have hfield := hv.hasFields.eq_or_fieldName_ne (hopen.mem_instanceFields hf)
    cases hq with
    | value hf' hopen' hembeds =>
      rcases hfield _ (hopen'.mem_instanceFields hf') with rfl | hne
      · exact absurd (embeds_cons_iff.2 hname) hembeds
      · exact .inr (Value.apart_of_ne hne)
    | base hf' hopen' _ hbase =>
      rcases hfield _ (hopen'.mem_instanceFields hf') with rfl | hne
      · have hinstance := hv.2 _ (hopen.mem_instanceFields hf) hname.symm
        exact (ih hbase hinstance).imp (congrArg _) Value.apart_cons
      · exact .inr (Value.apart_of_ne hne)

theorem Covered.apart_of_omitted (hp : Covered d level es p) (hq : Omitted d level es q)
    (hv : IsInstance level es v) : Value.Apart p q := by
  induction hp generalizing q v with
  | value hf hopen hembeds hholds =>
    have hfield := hv.hasFields.eq_or_fieldName_ne (hopen.mem_instanceFields hf)
    cases hq with
    | field hf' homitted =>
      rcases hfield _ hf' with rfl | hne
      · exact absurd (hopen.of_omitted homitted).2 hholds
      · exact Value.apart_of_ne hne
    | static _ _ hname =>
      exact Value.apart_of_ne (fieldName_ne_of_notMem (hopen.mem_instanceFields hf) hname)
    | base hf' hname =>
      rcases hfield _ hf' with rfl | hne
      · exact absurd (embeds_cons_iff.2 hname) hembeds
      · exact Value.apart_of_ne hne
  | base hf hopen hname _ ih =>
    have hfield := hv.hasFields.eq_or_fieldName_ne (hopen.mem_instanceFields hf)
    cases hq with
    | field hf' homitted =>
      rcases hfield _ hf' with rfl | hne
      · exact absurd (embeds_cons_iff.2 hname) (hopen.of_omitted homitted).1
      · exact Value.apart_of_ne hne
    | static _ _ hname =>
      exact Value.apart_of_ne (fieldName_ne_of_notMem (hopen.mem_instanceFields hf) hname)
    | base hf' _ hbase =>
      rcases hfield _ hf' with rfl | hne
      · have hinstance := hv.2 _ (hopen.mem_instanceFields hf) hname.symm
        exact Value.apart_cons (ih hbase hinstance)
      · exact Value.apart_of_ne hne

/-! ### Paths that are planned -/

/-- The names on a path. -/
def PublicPath.names (x : PublicPath) : List String := x.path.map Ident.bare

section Paths

variable {hops : List Ident} {paths : List PublicPath}
  {base : Option (String × (List Ident → Except Fault (List PublicPath)))}

theorem isOpen_of_mem_fieldPaths (h : fieldPaths d hops base f = .ok paths) {x : PublicPath}
    (hx : x ∈ paths) : IsOpen f := by
  unfold fieldPaths at h
  split at h
  · cases h
    cases hx
  · next hstays =>
    rw [Bool.not_eq_true, Bool.or_eq_false_iff] at hstays
    refine ⟨?_, hstays.1, hstays.2⟩
    obtain ⟨name, -, h⟩ := bind_eq_ok_iff.1 h
    -- with or without a base in it, a private field is skipped
    by_contra hprivate
    rw [Bool.not_eq_true] at hprivate
    split at h
    · simp only [hprivate, Bool.false_eq_true, if_false] at h
      cases h
      cases hx
    · simp only [hprivate, Bool.not_false, if_true] at h
      cases h
      cases hx

/-- An open field that embeds a base gives the paths through it. -/
theorem fieldPaths_base {below : List Ident → Except Fault (List PublicPath)} (hopen : IsOpen f)
    (h : fieldPaths d hops (some (f.name, below)) f = .ok paths) :
    ∃ name, name.bare = fieldName f ∧ below (hops ++ [name]) = .ok paths := by
  unfold fieldPaths at h
  simp only [hopen.notStatic, hopen.notDependency, hopen.isPublic, Option.filter_some,
    beq_self_eq_true, Bool.or_self, Bool.false_eq_true, if_false, if_true] at h
  obtain ⟨name, hname, h⟩ := bind_eq_ok_iff.1 h
  exact ⟨name, (fieldName_of_readIdent hname).symm, h⟩

/-- An open field that embeds no base gives its own path, unless it holds nothing. -/
theorem fieldPaths_value (hbase : base.filter (fun b => b.1 == f.name) = none) (hopen : IsOpen f)
    (h : fieldPaths d hops base f = .ok paths) :
    HoldsNothing d f ∧ paths = [] ∨
      ¬ HoldsNothing d f ∧ ∃ x, x.names = hops.map Ident.bare ++ [fieldName f] ∧ paths = [x] := by
  unfold fieldPaths at h
  simp only [hopen.notStatic, hopen.notDependency, hopen.isPublic, hbase, Bool.or_self,
    Bool.not_true, Bool.false_eq_true, if_false] at h
  obtain ⟨name, hname, h⟩ := bind_eq_ok_iff.1 h
  obtain ⟨type, htype, h⟩ := bind_eq_ok_iff.1 h
  obtain ⟨kind, hkind, h⟩ := bind_eq_ok_iff.1 h
  rw [kindOf_eq_ok_iff] at hkind
  cases kind with
  | void =>
    cases h
    exact .inl ⟨⟨type, htype, hkind⟩, rfl⟩
  | _ =>
    cases h
    refine .inr ⟨?_, _, ?_, rfl⟩
    · rintro ⟨type', htype', hvoid⟩
      rw [htype] at htype'
      cases htype'
      rw [hkind] at hvoid
      cases hvoid
    · rw [PublicPath.names, List.map_append, fieldName_of_readIdent hname]
      rfl

theorem fieldPaths_value_iff (hbase : base.filter (fun b => b.1 == f.name) = none)
    (h : fieldPaths d hops base f = .ok paths) (names : List String) :
    (∃ x ∈ paths, x.names = names) ↔
      IsOpen f ∧ ¬ HoldsNothing d f ∧ names = hops.map Ident.bare ++ [fieldName f] := by
  constructor
  · rintro ⟨x, hx, rfl⟩
    have hopen := isOpen_of_mem_fieldPaths h hx
    rcases fieldPaths_value hbase hopen h with ⟨-, rfl⟩ | ⟨hholds, x', hnames, rfl⟩
    · cases hx
    · rw [List.mem_singleton.1 hx]
      exact ⟨hopen, hholds, hnames⟩
  · rintro ⟨hopen, hholds, rfl⟩
    rcases fieldPaths_value hbase hopen h with ⟨hnothing, -⟩ | ⟨-, x, hnames, rfl⟩
    · exact absurd hnothing hholds
    · exact ⟨x, List.mem_cons_self, hnames⟩

theorem fieldPaths_base_iff {below : List Ident → Except Fault (List PublicPath)}
    {C : List String → Prop}
    (hbelow : ∀ {hops paths}, below hops = .ok paths → ∀ names,
      (∃ x ∈ paths, x.names = names) ↔ ∃ p, C p ∧ names = hops.map Ident.bare ++ p)
    (h : fieldPaths d hops (some (f.name, below)) f = .ok paths) (names : List String) :
    (∃ x ∈ paths, x.names = names) ↔
      IsOpen f ∧ ∃ p, C p ∧ names = hops.map Ident.bare ++ fieldName f :: p := by
  constructor
  · rintro ⟨x, hx, hnames⟩
    have hopen := isOpen_of_mem_fieldPaths h hx
    obtain ⟨name, hbare, hpaths⟩ := fieldPaths_base hopen h
    obtain ⟨p, hp, rfl⟩ := (hbelow hpaths names).1 ⟨x, hx, hnames⟩
    exact ⟨hopen, p, hp, by simp [hbare]⟩
  · rintro ⟨hopen, p, hp, rfl⟩
    obtain ⟨name, hbare, hpaths⟩ := fieldPaths_base hopen h
    exact (hbelow hpaths _).2 ⟨p, hp, by simp [hbare]⟩

/-- The paths of a level are those that are covered, behind the way to the level. -/
theorem levelPaths_iff (h : levelPaths d level es hops = .ok paths) (names : List String) :
    (∃ x ∈ paths, x.names = names) ↔
      ∃ p, Covered d level es p ∧ names = hops.map Ident.bare ++ p := by
  induction es generalizing level hops paths names with
  | nil =>
    obtain ⟨parts, hparts, h⟩ := bind_eq_ok_iff.1 h
    cases h
    rw [exists_mem_flatten_iff_of_forall₂ (forall₂_of_mapM_eq_ok hparts)
      fun f _ ps hps => fieldPaths_value_iff rfl hps names]
    constructor
    · rintro ⟨f, hf, hopen, hholds, rfl⟩
      exact ⟨_, .value hf hopen not_embeds_nil hholds, rfl⟩
    · rintro ⟨p, hp, rfl⟩
      cases hp with
      | value hf hopen _ hholds => exact ⟨_, hf, hopen, hholds, rfl⟩
  | cons e rest ih =>
    obtain ⟨parts, hparts, h⟩ := bind_eq_ok_iff.1 h
    cases h
    -- a field gives its own path, or those below it if it embeds the base
    have hfield : ∀ f ∈ level.fields, ∀ ps,
        fieldPaths d hops (some (e.field, levelPaths d e.base rest)) f = .ok ps →
        ((∃ x ∈ ps, x.names = names) ↔
          e.field ≠ f.name ∧ IsOpen f ∧ ¬ HoldsNothing d f ∧
            names = hops.map Ident.bare ++ [fieldName f] ∨
          e.field = f.name ∧ IsOpen f ∧ ∃ p, Covered d e.base rest p ∧
            names = hops.map Ident.bare ++ fieldName f :: p) := by
      intro f _ ps hps
      by_cases hname : e.field = f.name
      · rw [hname] at hps
        simp only [hname, ne_eq, not_true_eq_false, false_and, false_or, true_and]
        exact fieldPaths_base_iff ih hps names
      · simp only [hname, ne_eq, not_false_eq_true, true_and, false_and, or_false]
        exact fieldPaths_value_iff (by simp [hname]) hps names
    rw [exists_mem_flatten_iff_of_forall₂ (forall₂_of_mapM_eq_ok hparts) hfield]
    constructor
    · rintro ⟨f, hf, ⟨hname, hopen, hholds, rfl⟩ | ⟨hname, hopen, p, hp, rfl⟩⟩
      · exact ⟨_, .value hf hopen (mt embeds_cons_iff.1 hname) hholds, rfl⟩
      · exact ⟨_, .base hf hopen hname hp, rfl⟩
    · rintro ⟨p, hp, rfl⟩
      cases hp with
      | value hf hopen hembeds hholds =>
        exact ⟨_, hf, .inl ⟨mt embeds_cons_iff.2 hembeds, hopen, hholds, rfl⟩⟩
      | base hf hopen hname hp => exact ⟨_, hf, .inr ⟨hname, hopen, _, hp, rfl⟩⟩

end Paths

/-! ### The plan -/

/-- The fields that are followed to a value; behind a method there are none. -/
def Reach.path : Reach → List Ident
  | .getter _ => []
  | .publicField path => path
  | .rawOffset _ path _ => path

/-- The paths to the planned fields. -/
def PublicFieldsPlan.paths (plan : PublicFieldsPlan) : List (List String) :=
  plan.fields.map fun f => f.reach.path.map Ident.bare

section Plan

variable {plan : PublicFieldsPlan}

theorem planPublicFields_ok (h : planPublicFields d = .ok plan) :
    ∃ paths, levelPaths d d.toLevel d.ancestors [] = .ok paths ∧
      plan.fields = paths.zipIdx.map fun x => publicField x.1 x.2 := by
  obtain ⟨paths, hpaths, h⟩ := bind_eq_ok_iff.1 h
  obtain ⟨dependency, -, h⟩ := bind_eq_ok_iff.1 h
  cases h
  exact ⟨paths, hpaths, rfl⟩

theorem reach_of_plan (h : planPublicFields d = .ok plan) {f : WireField} (hf : f ∈ plan.fields) :
    f.reach = .publicField f.reach.path := by
  obtain ⟨paths, -, hfields⟩ := planPublicFields_ok h
  rw [hfields] at hf
  obtain ⟨x, -, rfl⟩ := List.mem_map.1 hf
  rfl

/-- Exactly the covered fields are planned. -/
theorem mem_paths_iff (h : planPublicFields d = .ok plan) :
    p ∈ plan.paths ↔ Covered d d.toLevel d.ancestors p := by
  obtain ⟨paths, hpaths, hfields⟩ := planPublicFields_ok h
  have hnames : plan.paths = paths.map PublicPath.names := by
    rw [PublicFieldsPlan.paths, hfields, List.map_map]
    conv_rhs => rw [← List.zipIdx_map_fst 0 paths, List.map_map]
    rfl
  rw [hnames, List.mem_map, levelPaths_iff hpaths]
  simp

/-- The code of a codec that assigns the public fields is that of the unit for its plan. -/
theorem generate_publicFields_ok {g : Generator} {gen : Generated}
    (h : g.generate d .publicFields = .ok gen) :
    ∃ type plan, readPath d d.pathText = .ok type ∧ planPublicFields d = .ok plan ∧
      gen.encode = (ofPublicFields type plan).encode.tokens g.runtime g.marshaller ∧
      gen.decode = (ofPublicFields type plan).decode.tokens g.runtime g.marshaller := by
  obtain ⟨frame, selected, unit, htype, hselect, hunit, hruntime, hmarshaller, hencode, hdecode,
    -⟩ := exists_unit_of_generate h
  obtain ⟨plan, hplan, hselected⟩ := bind_eq_ok_iff.1 hselect
  cases hselected
  cases hunit
  rw [← hruntime, ← hmarshaller]
  exact ⟨frame.type, plan, htype, hplan, hencode, hdecode⟩

/-! ### Local names of fields -/

/-- The local name of a field begins with its number. -/
theorem number_of_binding (x : PublicPath) (index : Nat) :
    ((publicField x index).binding.text.toList.drop 2).takeWhile (· != '_') =
      Nat.toDigits 10 index := by
  have htext : (publicField x index).binding.text =
      "__" ++ Nat.repr index ++ "_" ++ "_".intercalate x.names := rfl
  have hdigits : ∀ c ∈ Nat.toDigits 10 index, (c != '_') = true := by
    intro c hc
    rw [bne_iff_ne]
    rintro rfl
    exact Nat.underscore_not_in_toDigits hc
  simp [htext, List.takeWhile_append_of_pos hdigits]

theorem number_inj {x y : PublicPath} {i j : Nat}
    (h : (publicField x i).binding.text = (publicField y j).binding.text) : i = j := by
  have hdigits : Nat.toDigits 10 i = Nat.toDigits 10 j := by
    rw [← number_of_binding x i, h, number_of_binding y j]
  calc
    i = Nat.ofDigitChars 10 (Nat.toDigits 10 i) 0 := Nat.ofDigitChars_ten_toDigits.symm
    _ = Nat.ofDigitChars 10 (Nat.toDigits 10 j) 0 := by rw [hdigits]
    _ = j := Nat.ofDigitChars_ten_toDigits

theorem nodup_bindings_of_publicFields (h : planPublicFields d = .ok plan) :
    (plan.fields.map fun f => f.binding.text).Nodup := by
  obtain ⟨paths, -, hfields⟩ := planPublicFields_ok h
  have hnumbers := List.nodup_zipIdx_map_snd paths
  rw [hfields, List.map_map]
  refine List.Nodup.map_on (fun x hx y hy htext => ?_) (hnumbers.of_map _)
  exact List.inj_on_of_nodup_map hnumbers hx hy (number_inj htext)

/-- The name of the instance has no number. -/
theorem instance_notMem_bindings (h : planPublicFields d = .ok plan) :
    "__instance" ∉ plan.fields.map fun f => f.binding.text := by
  obtain ⟨paths, -, hfields⟩ := planPublicFields_ok h
  rw [hfields, List.map_map]
  intro hmem
  obtain ⟨x, -, htext⟩ := List.mem_map.1 hmem
  have hdigits := number_of_binding x.1 x.2
  have hstem : ("__instance".toList.drop 2).takeWhile (· != '_') = "instance".toList := by decide
  simp only [Function.comp_apply] at htext
  rw [htext, hstem] at hdigits
  have hletter : 'i' ∈ Nat.toDigits 10 x.2 := by
    rw [← hdigits]
    decide
  have hdigit := Nat.isDigit_of_mem_toDigits (by decide) (by decide) hletter
  exact absurd hdigit (by decide)

end Plan

end CodecForge.Plan
