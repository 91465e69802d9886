import CodecForge.Plan.CodecPlan
import CodecForge.Proofs.Plan.Resolution
import CodecForge.Proofs.Source.Identifiers

/-!
# How a value is reached

Through fields, a value is reached by the way from the type down to the nearest field of its name.
It is read by its path exactly if each field that is followed is public, unless another field of
the same name hides a private one from the test.

Through methods, a value is reached by the accessor that is declared for its name.  It is searched
for by the text of the name, with the mark of a raw identifier, so that the convention, which knows
no marks, is kept exactly where marks make no difference.
-/

namespace CodecForge.Plan

open CodecForge.Schema CodecForge.Source

variable {d : TypeDecl} {level declaring : Level} {e : Embedding} {es rest : List Embedding}
  {f : FieldDecl} {name : String} {kind : Kind} {r : Reach}

/-! ### The way to a field -/

/-- A field that is followed: the level where it is looked for, and its name. -/
structure Hop where
  level : Level
  name : String

/-- The way from a level to the nearest field of a name: the hops through the fields that embed the
bases above it, the level that declares it, and the field. -/
inductive Way (name : String) : Level → List Embedding → List Hop → Level → FieldDecl → Prop
  | here {level : Level} {es : List Embedding} {f : FieldDecl}
    (h : instanceField? level name = some f) : Way name level es [] level f
  | further {level declaring : Level} {e : Embedding} {rest : List Embedding} {hops : List Hop}
    {f : FieldDecl} (h : instanceField? level name = none)
    (hrest : Way name e.base rest hops declaring f) :
    Way name level (e :: rest) (⟨level, e.field⟩ :: hops) declaring f

/-- The field that is followed is public: the first of the name among those that values have. -/
def Hop.IsOpen (hop : Hop) : Prop :=
  ∃ f, instanceField? hop.level hop.name = some f ∧ f.isPublic = true

/-- The field that is followed is private or missing, but another one of its name is public. -/
def Hop.IsMasked (hop : Hop) : Prop :=
  ¬ hop.IsOpen ∧ ∃ f ∈ hop.level.fields, f.name = hop.name ∧ f.isPublic = true

/-- All that is followed on a way: the hops, and at its end the field itself. -/
def followed (name : String) (hops : List Hop) (declaring : Level) : List Hop :=
  hops ++ [⟨declaring, name⟩]

variable {hops : List Hop}

theorem mem_of_instanceField? (h : instanceField? level name = some f) :
    f ∈ level.fields ∧ f.name = name := by
  refine ⟨List.mem_of_find?_eq_some h, ?_⟩
  have hname := List.find?_some h
  simp only [Bool.and_eq_true, beq_iff_eq] at hname
  exact hname.1

/-- The test of a hop looks at all fields of its name, and not only at the one that is followed. -/
theorem exposes_iff (hop : Hop) :
    exposes hop.level hop.name = true ↔ hop.IsOpen ∨ hop.IsMasked := by
  have hany : exposes hop.level hop.name = true ↔
      ∃ f ∈ hop.level.fields, f.name = hop.name ∧ f.isPublic = true := by
    simp [exposes]
  rw [hany]
  constructor
  · exact fun h => (Classical.em hop.IsOpen).imp_right fun hopen => ⟨hopen, h⟩
  · rintro (⟨f, hf, hpublic⟩ | ⟨-, h⟩)
    · obtain ⟨hmem, hname⟩ := mem_of_instanceField? hf
      exact ⟨f, hmem, hname, hpublic⟩
    · exact h

theorem Way.instanceField? (h : Way name level es hops declaring f) :
    Plan.instanceField? declaring name = some f := by
  induction h with
  | here h => exact h
  | further _ _ ih => exact ih

theorem Way.forall_isOpen_iff (h : Way name level es hops declaring f) :
    (∀ hop ∈ followed name hops declaring, hop.IsOpen) ↔
      (∀ hop ∈ hops, hop.IsOpen) ∧ f.isPublic = true := by
  rw [followed, List.forall_mem_append, List.forall_mem_singleton]
  refine and_congr_right fun _ => ?_
  simp only [Hop.IsOpen, h.instanceField?, Option.some.injEq, exists_eq_left']

/-! ### Fields that are found -/

/-- What is found is the end of a way: its path has the names on the way, and it counts as public
if the tests of the hops are passed and the field is public. -/
structure Found.Follows (found : Found) (name : String) (level : Level) (es : List Embedding)
    (hops : List Hop) : Prop where
  way : Way name level es hops found.declaring found.field
  path : found.path = (followed name hops found.declaring).map Hop.name
  isPublic : found.isPublic = true ↔
    (∀ hop ∈ hops, hop.IsOpen ∨ hop.IsMasked) ∧ found.field.isPublic = true

theorem follows_here (h : instanceField? level name = some f) :
    Found.Follows ⟨f, level, [f.name], f.isPublic⟩ name level es [] where
  way := .here h
  path := by rw [(mem_of_instanceField? h).2]; rfl
  isPublic := by simp

theorem Found.Follows.through {found : Found} (h : instanceField? level name = none)
    (hfound : found.Follows name e.base rest hops) :
    (found.through e.field (exposes level e.field)).Follows name level (e :: rest)
      (⟨level, e.field⟩ :: hops) where
  way := .further h hfound.way
  path := by rw [Found.through, hfound.path]; rfl
  isPublic := by
    rw [Found.through, Bool.and_eq_true, hfound.isPublic, exposes_iff ⟨level, e.field⟩,
      List.forall_mem_cons, and_assoc]

/-- What is found is what a way leads to. -/
theorem exists_follows {found : Found} (h : findFrom name level es = some found) :
    ∃ hops, found.Follows name level es hops := by
  induction es generalizing level found with
  | nil =>
    obtain ⟨f, hf, rfl⟩ := Option.map_eq_some_iff.1 h
    exact ⟨[], follows_here hf⟩
  | cons e rest ih =>
    rw [findFrom] at h
    split at h
    · next f hf =>
      cases h
      exact ⟨[], follows_here hf⟩
    · next hnone =>
      obtain ⟨found, hfound, rfl⟩ := Option.map_eq_some_iff.1 h
      obtain ⟨hops, hfollows⟩ := ih hfound
      exact ⟨_, hfollows.through hnone⟩

/-! ### Values that are read from fields -/

/-- What is found is read by the path to it, or by its offset if it does not count as public. -/
theorem exists_follows_of_reachField (h : reachField d name = .ok r) :
    ∃ (found : Found) (hops : List Hop) (path : List Ident),
      found.Follows name d.toLevel d.ancestors hops ∧
      List.Forall₂ (fun hop i => Ident.parse? hop.name = some i)
        (followed name hops found.declaring) path ∧
      (found.isPublic = true ∧ r = .publicField path ∨
        found.isPublic = false ∧ ∃ type, Ty.parse? found.field.type = some type ∧
          r = .rawOffset found.declaring.displayName path type) := by
  rw [reachField] at h
  split at h
  · cases h
  next found hfound =>
  obtain ⟨hops, hfollows⟩ := exists_follows hfound
  obtain ⟨path, hpath, h⟩ := bind_eq_ok_iff.1 h
  have hread : List.Forall₂ (fun hop i => Ident.parse? hop.name = some i)
      (followed name hops found.declaring) path := by
    rw [hfollows.path, mapM_eq_ok_iff, List.forall₂_map_left_iff] at hpath
    simpa only [readIdent, readOr_eq_ok_iff] using hpath
  refine ⟨found, hops, path, hfollows, hread, ?_⟩
  split at h
  · next hpublic =>
    cases h
    exact .inl ⟨hpublic, rfl⟩
  · next hprivate =>
    obtain ⟨type, htype, h⟩ := bind_eq_ok_iff.1 h
    cases h
    exact .inr ⟨by simpa using hprivate, type, readOr_eq_ok_iff.1 htype, rfl⟩

/-- A value of a type without the accessor convention is reached by the way to the field of its
name: by its path if every field that is followed is public, and else by its offset, unless a
private or missing field on the way is masked. -/
theorem reach_follows (hplain : d.accessorConvention = false) (h : reach d name kind = .ok r) :
    ∃ hops declaring f path, Way name d.toLevel d.ancestors hops declaring f ∧
      List.Forall₂ (fun hop i => Ident.parse? hop.name = some i)
        (followed name hops declaring) path ∧
      (r = .publicField path ∨
        ∃ type, Ty.parse? f.type = some type ∧ r = .rawOffset declaring.displayName path type) ∧
      (r = .publicField path ↔
        (∀ hop ∈ hops, hop.IsOpen ∨ hop.IsMasked) ∧ f.isPublic = true) ∧
      ((∀ hop ∈ followed name hops declaring, hop.IsOpen) → r = .publicField path) ∧
      (r = .publicField path → (∀ hop ∈ hops, ¬ hop.IsMasked) →
        ∀ hop ∈ followed name hops declaring, hop.IsOpen) := by
  rw [reach, if_neg (by simp [hplain])] at h
  obtain ⟨found, hops, path, hfollows, hread, h⟩ := exists_follows_of_reachField h
  have hreach : (r = .publicField path ∨ ∃ type, Ty.parse? found.field.type = some type ∧
        r = .rawOffset found.declaring.displayName path type) ∧
      (r = .publicField path ↔ found.isPublic = true) := by
    obtain ⟨hpublic, rfl⟩ | ⟨hprivate, type, htype, rfl⟩ := h
    · exact ⟨.inl rfl, by simp [hpublic]⟩
    · exact ⟨.inr ⟨type, htype, rfl⟩, by simp [hprivate]⟩
  refine ⟨hops, found.declaring, found.field, path, hfollows.way, hread, hreach.1,
    hreach.2.trans hfollows.isPublic, fun hopen => ?_, fun hr hmasked => ?_⟩
  · obtain ⟨hhops, hfield⟩ := hfollows.way.forall_isOpen_iff.1 hopen
    exact hreach.2.2 (hfollows.isPublic.2 ⟨fun hop hmem => .inl (hhops hop hmem), hfield⟩)
  · obtain ⟨hhops, hfield⟩ := hfollows.isPublic.1 (hreach.2.1 hr)
    refine hfollows.way.forall_isOpen_iff.2 ⟨fun hop hmem => ?_, hfield⟩
    exact (hhops hop hmem).resolve_right (hmasked hop hmem)

/-- A circle that embeds its shape in a private field, and has a public static of the same name. -/
def maskedCircle : TypeDecl where
  name := "Circle"
  fields := [{ name := "base", type := "u8", isPublic := true, isStatic := true },
    { name := "base", type := "Shape" }]
  ancestors := [{ field := "base"
                  base := { name := "Shape"
                            fields := [{ name := "id", type := "u32", isPublic := true }] } }]

/-- The number of the shape is planned to be read through the private field. -/
theorem reach_follows_maskedCircle :
    reach maskedCircle "id" .declared = .ok (.publicField [⟨"base"⟩, ⟨"id"⟩]) ∧
      ∃ hops declaring f, Way "id" maskedCircle.toLevel maskedCircle.ancestors hops declaring f ∧
        ∃ hop ∈ hops, hop.IsMasked := by
  have hread : reach maskedCircle "id" .declared = .ok (.publicField [⟨"base"⟩, ⟨"id"⟩]) := rfl
  obtain ⟨hops, declaring, f, path, hway, -, hform, -, -, hopen⟩ := reach_follows rfl hread
  refine ⟨hread, hops, declaring, f, hway, ?_⟩
  obtain hpath | ⟨_, -, hpath⟩ := hform
  · by_contra hnone
    have hall := hopen hpath fun hop hmem hmasked => hnone ⟨hop, hmem, hmasked⟩
    cases hway with
    | here h => cases h
    | further =>
      obtain ⟨base, hbase, hpublic⟩ := hall ⟨maskedCircle.toLevel, "base"⟩ List.mem_cons_self
      cases hbase
      cases hpublic
  · cases hpath

/-! ### Accessors -/

/-- A method of this name is declared that takes no arguments. -/
def HasAccessor (d : TypeDecl) (text : String) : Prop :=
  ∃ m ∈ d.methods, m.arity = 0 ∧ m.name = text

/-- A method is declared that takes no arguments, and has this name but for a mark. -/
def NamesAccessor (d : TypeDecl) (name : String) : Prop :=
  ∃ m ∈ d.methods, m.arity = 0 ∧ Ident.bare ⟨m.name⟩ = name

instance (d : TypeDecl) (text : String) : Decidable (HasAccessor d text) :=
  inferInstanceAs (Decidable (∃ m ∈ d.methods, m.arity = 0 ∧ m.name = text))

instance (d : TypeDecl) (name : String) : Decidable (NamesAccessor d name) :=
  inferInstanceAs (Decidable (∃ m ∈ d.methods, m.arity = 0 ∧ Ident.bare ⟨m.name⟩ = name))

/-- What stands before the name of a value in the second name that its accessor may have. -/
def accessorPrefix : Kind → String
  | .scalar .bool => "is_"
  | _ => "get_"

/-- What comes of the search for an accessor by the text of the name, which keeps its mark: the
exact text comes first, and a mark within the prefixed one makes it unreadable. -/
inductive FoundByText (d : TypeDecl) (name : Ident) (kind : Kind) : Except Fault Reach → Prop
  | exact (h : HasAccessor d name.text) : FoundByText d name kind (.ok (.getter name))
  | prefixed (hexact : ¬ HasAccessor d name.text)
    (h : HasAccessor d (accessorPrefix kind ++ name.text)) (hunmarked : name.bare = name.text) :
    FoundByText d name kind (.ok (.getter ⟨accessorPrefix kind ++ name.text⟩))
  | unreadable (hexact : ¬ HasAccessor d name.text)
    (h : HasAccessor d (accessorPrefix kind ++ name.text)) (hmarked : name.bare ≠ name.text) :
    FoundByText d name kind (.error (fault d (.invalidType (accessorPrefix kind ++ name.text))))
  | missing (hexact : ¬ HasAccessor d name.text)
    (h : ¬ HasAccessor d (accessorPrefix kind ++ name.text)) :
    FoundByText d name kind (.error (fault d (.missingAccessor name.text)))

/-- What the convention makes of the search for an accessor, names being compared without marks. -/
inductive FoundByName (d : TypeDecl) (name : Ident) (kind : Kind) : Except Fault Reach → Prop
  | exact {m : Ident} (h : HasAccessor d m.text) (hname : m.bare = name.bare) :
    FoundByName d name kind (.ok (.getter m))
  | prefixed {m : Ident} (hexact : ¬ NamesAccessor d name.bare) (h : HasAccessor d m.text)
    (hname : m.bare = accessorPrefix kind ++ name.bare) :
    FoundByName d name kind (.ok (.getter m))
  | missing (hexact : ¬ NamesAccessor d name.bare)
    (h : ¬ NamesAccessor d (accessorPrefix kind ++ name.bare)) :
    FoundByName d name kind (.error (fault d (.missingAccessor name.text)))

/-- Marks make no difference: what is declared under a name is declared under the text that is
searched for, and a prefixed text that is declared has no mark within. -/
structure MarksAgree (d : TypeDecl) (name : Ident) (kind : Kind) : Prop where
  exact : NamesAccessor d name.bare → HasAccessor d name.text
  prefixed : ¬ NamesAccessor d name.bare → NamesAccessor d (accessorPrefix kind ++ name.bare) →
    HasAccessor d (accessorPrefix kind ++ name.text)
  readable : ¬ NamesAccessor d name.bare → HasAccessor d (accessorPrefix kind ++ name.text) →
    name.bare = name.text

section Accessors

variable {i : Ident} {result : Except Fault Reach}

theorem declaresAccessor_iff {text : String} :
    declaresAccessor d text = true ↔ HasAccessor d text := by
  simp [declaresAccessor, HasAccessor]

theorem getterNames_eq (name : String) (kind : Kind) :
    getterNames name kind = [name, accessorPrefix kind ++ name] := by
  cases kind with
  | scalar s => cases s <;> rfl
  | _ => rfl

theorem accessorPrefix_cases (kind : Kind) :
    accessorPrefix kind = "is_" ∨ accessorPrefix kind = "get_" := by
  unfold accessorPrefix
  split
  · exact .inl rfl
  · exact .inr rfl

theorem bare_prefixed (kind : Kind) (name : String) :
    Ident.bare ⟨accessorPrefix kind ++ name⟩ = accessorPrefix kind ++ name := by
  unfold Ident.bare
  split
  · next rest htext =>
    rcases accessorPrefix_cases kind with h | h <;> simp [h] at htext
  · rfl

/-- Behind a prefix, an identifier without mark is one again. -/
theorem parse_prefixed (hi : IsIdentText i.text) (kind : Kind) (hunmarked : i.bare = i.text) :
    Ident.parse? (accessorPrefix kind ++ i.text) = some ⟨accessorPrefix kind ++ i.text⟩ := by
  rcases accessorPrefix_cases kind with h | h
  · rw [h]
    exact parse_append (isWord_of_all (by decide) (by decide)) (by decide) hi hunmarked
  · rw [h]
    exact parse_append (isWord_of_all (by decide) (by decide)) (by decide) hi hunmarked

/-- Behind a prefix, the mark of an identifier parts two words. -/
theorem parse_prefixed_marked (hi : IsIdentText i.text) (kind : Kind)
    (hmarked : i.bare ≠ i.text) : Ident.parse? (accessorPrefix kind ++ i.text) = none := by
  obtain hword | ⟨w, hw, htext⟩ := hi.isName
  · exact absurd (Ident.bare_of_isWord hword) hmarked
  rcases accessorPrefix_cases kind with h | h
  · refine @parse_of_parted _ 'i' ['s', '_', 'r'] w (isWord_of_all (by decide) (by decide))
      (by decide) (by decide) (by decide) hw ?_
    rw [h, String.toList_append, htext]
    rfl
  · refine @parse_of_parted _ 'g' ['e', 't', '_', 'r'] w (isWord_of_all (by decide) (by decide))
      (by decide) (by decide) (by decide) hw ?_
    rw [h, String.toList_append, htext]
    rfl

/-- The search goes by the texts of names. -/
theorem foundByText_reachGetter (hi : IsIdentText i.text) (kind : Kind) :
    FoundByText d i kind (reachGetter d i.text kind) := by
  rw [reachGetter, getterNames_eq]
  by_cases hexact : HasAccessor d i.text
  · rw [List.find?_cons_of_pos (declaresAccessor_iff.2 hexact)]
    have hread : readIdent d i.text = .ok i := readOr_eq_ok_iff.2 hi.parse
    simp only [hread]
    exact .exact hexact
  rw [List.find?_cons_of_neg (mt declaresAccessor_iff.1 hexact)]
  by_cases hprefixed : HasAccessor d (accessorPrefix kind ++ i.text)
  · rw [List.find?_cons_of_pos (declaresAccessor_iff.2 hprefixed)]
    by_cases hunmarked : i.bare = i.text
    · have hread : readIdent d (accessorPrefix kind ++ i.text) = _ :=
        readOr_eq_ok_iff.2 (parse_prefixed hi kind hunmarked)
      simp only [hread]
      exact .prefixed hexact hprefixed hunmarked
    · have hread : readIdent d (accessorPrefix kind ++ i.text) = _ :=
        readOr_eq_error_iff.2 ⟨parse_prefixed_marked hi kind hunmarked, rfl⟩
      simp only [hread]
      exact .unreadable hexact hprefixed hunmarked
  · rw [List.find?_cons_of_neg (mt declaresAccessor_iff.1 hprefixed)]
    exact .missing hexact hprefixed

theorem HasAccessor.names (h : HasAccessor d i.text) : NamesAccessor d i.bare := by
  obtain ⟨m, hm, harity, hname⟩ := h
  exact ⟨m, hm, harity, by rw [hname]⟩

theorem accessorPrefix_append_ne (kind : Kind) (name : String) :
    accessorPrefix kind ++ name ≠ name := by
  intro h
  have hlength := congrArg String.length h
  rw [String.length_append] at hlength
  rcases accessorPrefix_cases kind with hkind | hkind <;> simp [hkind] at hlength

/-- A search by texts does what the convention says exactly where marks make no difference. -/
theorem foundByName_iff (h : FoundByText d i kind result) :
    FoundByName d i kind result ↔ MarksAgree d i kind := by
  constructor
  · intro hname
    cases h with
    | exact h =>
      exact ⟨fun _ => h, fun hnone => absurd h.names hnone, fun hnone => absurd h.names hnone⟩
    | prefixed hexact h hunmarked =>
      cases hname with
      | exact _ hbare =>
        rw [bare_prefixed, hunmarked] at hbare
        exact absurd hbare (accessorPrefix_append_ne kind i.text)
      | prefixed hnone =>
        exact ⟨fun hnamed => absurd hnamed hnone, fun _ _ => h, fun _ _ => hunmarked⟩
    | unreadable hexact h hmarked => cases hname
    | missing hexact h =>
      cases hname with
      | missing hnone hnone' =>
        exact ⟨fun hnamed => absurd hnamed hnone, fun _ hnamed => absurd hnamed hnone',
          fun _ hprefixed => absurd hprefixed h⟩
  · intro hagree
    cases h with
    | exact h => exact .exact h rfl
    | prefixed hexact h hunmarked =>
      refine .prefixed (mt hagree.exact hexact) h ?_
      rw [bare_prefixed, hunmarked]
    | unreadable hexact h hmarked =>
      exact absurd (hagree.readable (mt hagree.exact hexact) h) hmarked
    | missing hexact h =>
      have hnone := mt hagree.exact hexact
      exact .missing hnone (mt (hagree.prefixed hnone) h)

theorem marksAgree_of_unmarked (hi : i.bare = i.text)
    (hmethods : ∀ m ∈ d.methods, m.arity = 0 → Ident.bare ⟨m.name⟩ = m.name) (kind : Kind) :
    MarksAgree d i kind := by
  have htext : ∀ {name : String}, NamesAccessor d name → HasAccessor d name := by
    rintro _ ⟨m, hm, harity, rfl⟩
    exact ⟨m, hm, harity, (hmethods m hm harity).symm⟩
  constructor
  · exact fun h => hi ▸ htext h
  · exact fun _ h => hi ▸ htext h
  · exact fun _ _ => hi

end Accessors

/-! ### Values that are read through methods -/

/-- For a parameter that travels, in a type with the accessor convention, a method is searched for
by the text of the name.  That is the search of the convention, which compares names without marks,
exactly where marks make no difference, and so wherever no name is marked. -/
theorem planArgument_searches {c : Construction} {p : Param}
    (hconvention : d.accessorConvention = true) (hc : resolve d = .ok c) (hp : p ∈ c.wireParams)
    (hkind : Kind.of p.type = .ok kind) :
    FoundByText d p.name kind ((planArgument d p).map WireField.reach) ∧
    (FoundByName d p.name kind ((planArgument d p).map WireField.reach) ↔
      MarksAgree d p.name kind) ∧
    (p.name.bare = p.name.text →
      (∀ m ∈ d.methods, m.arity = 0 → Ident.bare ⟨m.name⟩ = m.name) →
      FoundByName d p.name kind ((planArgument d p).map WireField.reach)) := by
  obtain ⟨choice, -, hmakes⟩ := exists_makes_of_resolve hc
  obtain ⟨q, -, hq⟩ := forall₂_exists_left hmakes.params (List.mem_of_mem_filter hp)
  have hreach : (planArgument d p).map WireField.reach = reachGetter d p.name.text kind := by
    have hread : kindOf d p.name.text p.type = .ok kind := by rw [kindOf, hkind]
    simp only [planArgument, hread, reach, hconvention, if_true, bind, Except.bind]
    cases reachGetter d p.name.text kind <;> rfl
  have hfound := foundByText_reachGetter (d := d) (isIdentText_of_parse hq.name) kind
  rw [hreach]
  refine ⟨hfound, foundByName_iff hfound, fun hname hmethods => ?_⟩
  exact (foundByName_iff hfound).2 (marksAgree_of_unmarked hname hmethods kind)

/-- A reading of which one value has a name that is marked as raw, and its accessor has no mark. -/
def reading : TypeDecl where
  name := "Reading"
  accessorConvention := true
  fields := [{ name := "r#type", type := "String" }, { name := "valid", type := "bool" }]
  methods := [{ name := "get_type" }, { name := "is_valid" }, { name := "valid" }]

/-- The accessor without mark is not found, and of the two of the other value the exact one is. -/
theorem planArgument_searches_reading : ∃ c p q, resolve reading = .ok c ∧
    c.wireParams = [p, q] ∧ p.name = ⟨"r#type"⟩ ∧ q.name = ⟨"valid"⟩ ∧
    ¬ FoundByName reading p.name .declared ((planArgument reading p).map WireField.reach) ∧
    FoundByName reading q.name (.scalar .bool) ((planArgument reading q).map WireField.reach) := by
  obtain ⟨s, t, hc, hs, ht⟩ : ∃ s t, resolve reading =
      .ok ⟨.structLiteral, [⟨⟨"r#type"⟩, s, false⟩, ⟨⟨"valid"⟩, t, false⟩], none⟩ ∧
      Kind.of s = .ok .declared ∧ Kind.of t = .ok (.scalar .bool) := ⟨_, _, rfl, rfl, rfl⟩
  refine ⟨_, _, _, hc, rfl, rfl, rfl, ?_, ?_⟩
  · intro hfound
    have hagree : MarksAgree reading ⟨"r#type"⟩ .declared :=
      (planArgument_searches rfl hc List.mem_cons_self hs).2.1.1 hfound
    exact absurd (hagree.prefixed (by decide +kernel) (by decide +kernel)) (by decide +kernel)
  · have hunmarked : Ident.bare ⟨"valid"⟩ = "valid" := by decide +kernel
    exact (planArgument_searches rfl hc (.tail _ List.mem_cons_self) ht).2.2 hunmarked
      (by decide +kernel)

end CodecForge.Plan
