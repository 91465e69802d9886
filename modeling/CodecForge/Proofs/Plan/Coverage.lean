import CodecForge.Proofs.Plan.Sites

/-!
# What a plan of public fields has

The planned fields are the sites that travel, in their order, each with the way to it, and with a
local name of its own.  There is no plan exactly if something is amiss with a site that is looked at
or with the dependency of the type, and the first such fault is reported.
-/

namespace CodecForge.Plan

open CodecForge.Schema CodecForge.Source

/-- The fields of a type and of all its bases. -/
def fieldSites (d : TypeDecl) : List Site := sites [] d.toLevel d.ancestors

/-- The wire field is that of the field: it is reached over the fields that embed its level. -/
structure Site.IsWired (s : Site) (f : WireField) : Prop where
  reach : ∃ path, f.reach = .publicField path ∧ f.name = ".".intercalate (path.map Ident.bare) ∧
    List.Forall₂ (fun h i => Ident.parse? h.name = some i) (s.hops ++ [s.field]) path
  type : Ty.parse? s.field.type = some f.type
  kind : Kind.of f.type = .ok f.kind

/-- Why there is no plan of the public fields. -/
inductive PublicFieldsFault (d : TypeDecl) : Fault → Prop
  /-- Something is amiss with a field, and with none before it. -/
  | field {before after : List Site} {s : Site} {c : Cause}
      (hsites : fieldSites d = before ++ s :: after) (hbefore : ∀ s' ∈ before, s'.IsSound)
      (hfault : SiteFault s c) : PublicFieldsFault d (fault d c)
  /-- The fields are sound, and the dependency is no type. -/
  | dependency {text : String} (hsound : ∀ s ∈ fieldSites d, s.IsSound)
      (hdependency : d.dependency = some text) (htype : Ty.parse? text = none) :
      PublicFieldsFault d (fault d (.invalidType text))

variable {d : TypeDecl}

/-! ### Local names -/

theorem isIdentContinue_of_isDigit {c : Char} (h : c.isDigit = true) :
    Text.isIdentContinue c = true := by
  have hascii : c.toNat < 128 := by
    simp only [Char.isDigit, Bool.and_eq_true, decide_eq_true_eq, ge_iff_le] at h
    exact lt_of_le_of_lt (UInt32.le_iff_toNat_le.1 h.2) (by decide)
  rw [Text.isIdentContinue, if_pos hascii, Char.isAlphanum, h]
  simp

theorem mem_intercalate {c : Char} {sep : List Char} {ws : List (List Char)}
    (h : c ∈ sep.intercalate ws) : c ∈ sep ∨ ∃ w ∈ ws, c ∈ w := by
  induction ws with
  | nil => simp at h
  | cons w ws ih =>
    cases ws with
    | nil => exact .inr ⟨w, by simpa using h⟩
    | cons w' ws =>
      rw [List.intercalate_cons_cons, List.mem_append, List.mem_append] at h
      obtain (h | h) | h := h
      · exact .inr ⟨w, List.mem_cons_self, h⟩
      · exact .inl h
      · exact (ih h).imp_right fun ⟨v, hv, hc⟩ => ⟨v, List.mem_cons_of_mem _ hv, hc⟩

/-- The local name of a field is an identifier. -/
theorem parse_binding {x : PublicPath} (hx : ∀ n ∈ x.path, IsName n.text) (index : Nat) :
    Ident.parse? (publicField x index).binding.text = some (publicField x index).binding := by
  have htext : (publicField x index).binding.text.toList =
      '_' :: '_' :: (Nat.toDigits 10 index ++
        '_' :: ['_'].intercalate (x.names.map String.toList)) := by
    have hbinding : (publicField x index).binding.text =
        "__" ++ Nat.repr index ++ "_" ++ "_".intercalate x.names := rfl
    simp [hbinding, String.toList_intercalate]
  have hunderscore : Text.isIdentContinue '_' = true := by decide
  refine parse_of_underscores htext fun c hc => ?_
  obtain hc | hc := List.mem_append.1 hc
  · exact isIdentContinue_of_isDigit (Nat.isDigit_of_mem_toDigits (by decide) (by decide) hc)
  obtain rfl | hc := List.mem_cons.1 hc
  · exact hunderscore
  obtain hc | ⟨w, hw, hc⟩ := mem_intercalate hc
  · rw [List.mem_singleton.1 hc]
    exact hunderscore
  · obtain ⟨name, hname, rfl⟩ := List.mem_map.1 hw
    obtain ⟨n, hn, rfl⟩ := List.mem_map.1 hname
    exact (hx n hn).bare.isIdentContinue c hc

/-! ### Faults -/

theorem typeDependency_eq_error_iff {f : Fault} : typeDependency d = .error f ↔
    ∃ text, d.dependency = some text ∧ Ty.parse? text = none ∧
      f = fault d (.invalidType text) := by
  unfold typeDependency
  cases hdependency : d.dependency with
  | none => simp
  | some text =>
    rw [bind_eq_error_iff, readType, readOr_eq_error_iff, or_iff_left]
    · simp
    · rintro ⟨type, -, h⟩
      split at h <;> cases h

theorem levelPaths_eq_sites (d : TypeDecl) :
    levelPaths d d.toLevel d.ancestors [] = gather (sitePaths d) (fieldSites d) := by
  have hlevel : ∀ hops : List FieldDecl, (∀ h ∈ hops, IsOpen h) →
      levelPaths d d.toLevel d.ancestors (hops.map identOf) =
        gather (sitePaths d) (sites hops d.toLevel d.ancestors) :=
    fun hops hopen => levelPaths_eq_gather hopen
  exact hlevel [] (by simp)

/-- The paths of a type are read exactly if nothing is amiss with its fields. -/
theorem exists_levelPaths_eq_ok_iff :
    (∃ paths, levelPaths d d.toLevel d.ancestors [] = .ok paths) ↔
      ∀ s ∈ fieldSites d, s.IsSound := by
  rw [levelPaths_eq_sites, exists_gather_eq_ok_iff]
  simp only [exists_sitePaths_eq_ok_iff]

/-- The first fault is the one that is reported. -/
theorem planPublicFields_eq_error_iff {f : Fault} :
    planPublicFields d = .error f ↔ PublicFieldsFault d f := by
  constructor
  · intro h
    obtain h | ⟨paths, hpaths, h⟩ := bind_eq_error_iff.1 h
    · rw [levelPaths_eq_sites, gather_eq_error_iff] at h
      obtain ⟨before, s, after, hsites, hbefore, hs⟩ := h
      obtain ⟨c, hc, rfl⟩ := sitePaths_eq_error_iff.1 hs
      exact .field hsites (fun s' hs' => exists_sitePaths_eq_ok_iff.1 (hbefore s' hs')) hc
    · have hsound := exists_levelPaths_eq_ok_iff.1 ⟨paths, hpaths⟩
      obtain h | ⟨dependency, -, h⟩ := bind_eq_error_iff.1 h
      · obtain ⟨text, hdependency, htype, rfl⟩ := typeDependency_eq_error_iff.1 h
        exact .dependency hsound hdependency htype
      · cases h
  · intro h
    cases h with
    | @field before after s c hsites hbefore hfault =>
      refine bind_eq_error_iff.2 (.inl ?_)
      rw [levelPaths_eq_sites, gather_eq_error_iff]
      exact ⟨before, s, after, hsites,
        fun s' hs' => exists_sitePaths_eq_ok_iff.2 (hbefore s' hs'), sitePaths_of_fault hfault⟩
    | dependency hsound hdependency htype =>
      obtain ⟨paths, hpaths⟩ := exists_levelPaths_eq_ok_iff.2 hsound
      have hfault := typeDependency_eq_error_iff.2 ⟨_, hdependency, htype, rfl⟩
      exact bind_eq_error_iff.2 (.inr ⟨paths, hpaths, bind_eq_error_iff.2 (.inl hfault)⟩)

/-- There is no plan if something is amiss anywhere. -/
theorem exists_publicFieldsFault_iff :
    (∃ f, PublicFieldsFault d f) ↔ (∃ s ∈ fieldSites d, ∃ c, SiteFault s c) ∨
      ∃ text, d.dependency = some text ∧ Ty.parse? text = none := by
  constructor
  · rintro ⟨_, @⟨before, after, s, c, hsites, -, hfault⟩ | @⟨text, -, hdependency, htype⟩⟩
    · exact .inl ⟨s, by simp [hsites], c, hfault⟩
    · exact .inr ⟨text, hdependency, htype⟩
  · intro h
    simp only [← planPublicFields_eq_error_iff]
    rw [exists_error_iff]
    rintro ⟨plan, hplan⟩
    obtain ⟨paths, hpaths, hplan⟩ := bind_eq_ok_iff.1 hplan
    obtain ⟨dependency, hdependency, -⟩ := bind_eq_ok_iff.1 hplan
    obtain ⟨s, hs, c, hc⟩ | ⟨text, htext, htype⟩ := h
    · exact exists_levelPaths_eq_ok_iff.1 ⟨paths, hpaths⟩ s hs c hc
    · cases hdependency.symm.trans (typeDependency_eq_error_iff.2 ⟨text, htext, htype, rfl⟩)

/-! ### The plan -/

/-- The names of the fields on the way to a field that is looked at are identifiers. -/
theorem parse_hops (hsound : ∀ s ∈ fieldSites d, s.IsSound) {s : Site} (hs : s ∈ fieldSites d)
    (hreached : s.IsReached) : ∀ h ∈ s.hops, Ident.parse? h.name = some (identOf h) := by
  intro h hh
  obtain hnil | ⟨s', hs', rfl, hhops⟩ := exists_site_of_hop hs hh
  · cases hnil
  · have hopen := hreached s'.field hh
    refine (hsound s' hs').parse_name ⟨fun h' hh' => ?_, hopen.notStatic, hopen.notDependency⟩
    exact hreached h' (hhops.subset hh')

theorem forall₂_parse {fs : List FieldDecl}
    (h : ∀ f ∈ fs, Ident.parse? f.name = some (identOf f)) :
    List.Forall₂ (fun f i => Ident.parse? f.name = some i) fs (fs.map identOf) := by
  rw [List.forall₂_map_right_iff, List.forall₂_same]
  exact h

/-- The path leads over the fields that are named, and the type and the kind are those of the last
one. -/
structure Site.IsRead (s : Site) (x : PublicPath) : Prop where
  path : List.Forall₂ (fun h i => Ident.parse? h.name = some i) (s.hops ++ [s.field]) x.path
  type : Ty.parse? s.field.type = some x.type
  kind : Kind.of x.type = .ok x.kind

/-- The paths of a type are those to the sites that travel. -/
theorem isRead_of_levelPaths {paths : List PublicPath}
    (h : levelPaths d d.toLevel d.ancestors [] = .ok paths) :
    List.Forall₂ Site.IsRead ((fieldSites d).filter fun s => s.IsPlanned d) paths := by
  have hsound := exists_levelPaths_eq_ok_iff.1 ⟨paths, h⟩
  rw [levelPaths_eq_sites, gather_eq_ok_iff] at h
  obtain ⟨pss, hpss, rfl⟩ := h
  refine forall₂_filter_flatten hpss fun s hs ps hps => ?_
  obtain ⟨hplanned, type, kind, htype, hkind, hok⟩ | ⟨hnot, hok⟩ :=
    sitePaths_of_sound (d := d) (hsound s hs)
  · cases hps.symm.trans hok
    refine .inl ⟨hplanned, _, ⟨?_, htype, hkind⟩, rfl⟩
    refine forall₂_parse (List.forall_mem_append.2 ⟨parse_hops hsound hs hplanned.reached, ?_⟩)
    simpa using (hsound s hs).parse_name hplanned.isVisited
  · cases hps.symm.trans hok
    exact .inr ⟨hnot, rfl⟩

theorem Site.IsRead.isName {s : Site} {x : PublicPath} (h : s.IsRead x) :
    ∀ n ∈ x.path, IsName n.text := by
  intro n hn
  obtain ⟨f, -, hparse⟩ := forall₂_exists_left h.path hn
  exact isName_of_parse hparse

/-- A type has either a first fault, which is reported, or a plan of its public fields.  The fields
of the plan are the sites that travel, in their order, and their local names are distinct
identifiers. -/
theorem select_publicFields (d : TypeDecl) :
    (∀ f, select d .publicFields = .error f ↔ PublicFieldsFault d f) ∧
    ((∃ f, PublicFieldsFault d f) ↔ (∃ s ∈ fieldSites d, ∃ c, SiteFault s c) ∨
      ∃ text, d.dependency = some text ∧ Ty.parse? text = none) ∧
    ((∃ f, PublicFieldsFault d f) ∨
      ∃ plan, select d .publicFields = .ok (.publicFields plan) ∧
        List.Forall₂ Site.IsWired ((fieldSites d).filter fun s => s.IsPlanned d) plan.fields ∧
        (plan.fields.map WireField.binding).Nodup ∧
        ∀ f ∈ plan.fields, Ident.parse? f.binding.text = some f.binding) := by
  have herror : ∀ f, select d .publicFields = .error f ↔ PublicFieldsFault d f := by
    intro f
    rw [← planPublicFields_eq_error_iff, select, bind_eq_error_iff, or_iff_left]
    rintro ⟨plan, -, h⟩
    cases h
  refine ⟨herror, exists_publicFieldsFault_iff, ?_⟩
  cases hplan : planPublicFields d with
  | error f => exact .inl ⟨f, planPublicFields_eq_error_iff.1 hplan⟩
  | ok plan =>
    have hselect : select d .publicFields = .ok (.publicFields plan) := by
      rw [select, hplan]
      rfl
    obtain ⟨paths, hpaths, hfields⟩ := planPublicFields_ok hplan
    have hread := isRead_of_levelPaths hpaths
    refine .inr ⟨plan, hselect, ?_, ?_, ?_⟩
    · rw [hfields]
      exact forall₂_zipIdx hread
        (fun s _ x hx i => ⟨⟨x.path, rfl, rfl, hx.path⟩, hx.type, hx.kind⟩) 0
    · have hnodup := nodup_bindings_of_publicFields hplan
      rw [← Function.comp_def Ident.text WireField.binding, ← List.map_map] at hnodup
      exact hnodup.of_map
    · intro f hf
      rw [hfields] at hf
      obtain ⟨⟨x, i⟩, hx, rfl⟩ := List.mem_map.1 hf
      obtain ⟨s, -, hs⟩ := forall₂_exists_left hread (List.fst_mem_of_mem_zipIdx hx)
      exact parse_binding hs.isName i

end CodecForge.Plan
