import CodecForge.Proofs.Plan.PublicFields
import CodecForge.Proofs.Source.Identifiers

/-!
# The fields of a plan in their order

The fields of a type and of its bases stand in one order, `sites`: as they are declared, those of a
base right behind the field that embeds it.  A plan of public fields has the fields of this order
that are open, hold data and embed no base, at levels that are embedded in open fields alone; and
there is no such plan if a field of these levels is amiss, of which the first is reported.
-/

namespace CodecForge.Plan

open CodecForge.Schema CodecForge.Source

/-! ### Where fields stand -/

/-- A field, with the fields that embed the levels on the way to it. -/
structure Site where
  hops : List FieldDecl
  field : FieldDecl
  /-- The field embeds the next base. -/
  embeds : Bool

/-- The fields of a level that the hops lead to and of the bases below it, those of a base behind
the field that embeds it. -/
def sites : List FieldDecl → Level → List Embedding → List Site
  | hops, level, [] => level.fields.map fun f => ⟨hops, f, false⟩
  | hops, level, e :: rest => level.fields.flatMap fun f =>
    if e.field = f.name then ⟨hops, f, true⟩ :: sites (hops ++ [f]) e.base rest
    else [⟨hops, f, false⟩]

instance (f : FieldDecl) : Decidable (IsOpen f) :=
  decidable_of_iff (f.isPublic = true ∧ f.isStatic = false ∧ f.isDependency = false)
    ⟨fun ⟨h, h', h''⟩ => ⟨h, h', h''⟩, fun ⟨h, h', h''⟩ => ⟨h, h', h''⟩⟩

instance (d : TypeDecl) (f : FieldDecl) : Decidable (HoldsNothing d f) :=
  match htype : readType d f.type with
  | .error _ => isFalse fun ⟨_, h, _⟩ => by simp [h] at htype
  | .ok type =>
    match hkind : Kind.of type with
    | .ok .void => isTrue ⟨type, htype, hkind⟩
    | .ok (.scalar _) | .ok (.array _ _) | .ok .declared | .error _ => isFalse fun ⟨_, h, h'⟩ => by
      simp_all

/-- The level of the field is one whose public fields travel. -/
def Site.IsReached (s : Site) : Prop := ∀ h ∈ s.hops, IsOpen h

/-- The field is looked at: it is one of values, and does not come from the caller of the
decoder. -/
structure Site.IsVisited (s : Site) : Prop where
  reached : s.IsReached
  notStatic : s.field.isStatic = false
  notDependency : s.field.isDependency = false

/-- The field travels. -/
structure Site.IsPlanned (d : TypeDecl) (s : Site) : Prop where
  reached : s.IsReached
  isOpen : IsOpen s.field
  notEmbeds : s.embeds = false
  holds : ¬ HoldsNothing d s.field

instance (s : Site) : Decidable s.IsReached :=
  inferInstanceAs (Decidable (∀ h ∈ s.hops, IsOpen h))

instance (d : TypeDecl) (s : Site) : Decidable (s.IsPlanned d) :=
  decidable_of_iff (s.IsReached ∧ IsOpen s.field ∧ s.embeds = false ∧ ¬ HoldsNothing d s.field)
    ⟨fun ⟨h₁, h₂, h₃, h₄⟩ => ⟨h₁, h₂, h₃, h₄⟩, fun ⟨h₁, h₂, h₃, h₄⟩ => ⟨h₁, h₂, h₃, h₄⟩⟩

/-- What is amiss with a field that is looked at. -/
inductive SiteFault (s : Site) : Cause → Prop
  /-- Its name is no identifier. -/
  | name (hvisited : s.IsVisited) (hname : Ident.parse? s.field.name = none) :
      SiteFault s (.invalidType s.field.name)
  /-- Its value travels, and its type is no type. -/
  | type {name : Ident} (hvisited : s.IsVisited) (hname : Ident.parse? s.field.name = some name)
      (hembeds : s.embeds = false) (hpublic : s.field.isPublic = true)
      (htype : Ty.parse? s.field.type = none) : SiteFault s (.invalidType s.field.type)
  /-- Its value travels, and its type is one whose values cannot. -/
  | kind {name : Ident} {type : Ty} {reason : Unsupported} (hvisited : s.IsVisited)
      (hname : Ident.parse? s.field.name = some name) (hembeds : s.embeds = false)
      (hpublic : s.field.isPublic = true) (htype : Ty.parse? s.field.type = some type)
      (hkind : Kind.of type = .error reason) :
      SiteFault s (.unsupportedFieldType s.field.name type.text reason.message)

/-- Nothing is amiss with the field. -/
def Site.IsSound (s : Site) : Prop := ∀ c, ¬ SiteFault s c

/-! ### Fields that are collected -/

/-- Collects what is found at each place, one after the other. -/
def gather {α β : Type} (find : α → Except Fault (List β)) (as : List α) :
    Except Fault (List β) :=
  return (← as.mapM find).flatten

section Gather

variable {α β γ : Type} {find : α → Except Fault (List β)} {a : α} {as as' : List α}

theorem gather_nil : gather find [] = .ok [] := rfl

theorem gather_cons :
    gather find (a :: as) = do return (← find a) ++ (← gather find as) := by
  simp [gather]

theorem gather_singleton : gather find [a] = find a := by
  rw [gather_cons, gather_nil]
  cases find a with
  | error fault => rfl
  | ok bs => exact congrArg Except.ok (List.append_nil bs)

theorem gather_append :
    gather find (as ++ as') = do return (← gather find as) ++ (← gather find as') := by
  simp [gather]

theorem gather_flatMap {find' : γ → Except Fault (List β)} {places : γ → List α} {cs : List γ}
    (h : ∀ c ∈ cs, find' c = gather find (places c)) :
    gather find' cs = gather find (cs.flatMap places) := by
  induction cs with
  | nil => rfl
  | cons c cs ih =>
    rw [List.forall_mem_cons] at h
    rw [gather_cons, List.flatMap_cons, gather_append, h.1, ih h.2]

theorem gather_eq_nil (h : ∀ a ∈ as, find a = .ok []) : gather find as = .ok [] := by
  induction as with
  | nil => rfl
  | cons a as ih =>
    rw [List.forall_mem_cons] at h
    rw [gather_cons, h.1, ih h.2]
    rfl

/-- What is found everywhere is gathered. -/
theorem gather_eq_ok_iff {bs : List β} : gather find as = .ok bs ↔
    ∃ bss, List.Forall₂ (fun a bs => find a = .ok bs) as bss ∧ bs = bss.flatten := by
  rw [gather, bind_eq_ok_iff]
  simp only [mapM_eq_ok_iff]
  constructor
  · rintro ⟨bss, hbss, h⟩
    cases h
    exact ⟨bss, hbss, rfl⟩
  · rintro ⟨bss, hbss, rfl⟩
    exact ⟨bss, hbss, rfl⟩

theorem exists_gather_eq_ok_iff :
    (∃ bs, gather find as = .ok bs) ↔ ∀ a ∈ as, ∃ bs, find a = .ok bs := by
  simp only [gather_eq_ok_iff]
  rw [← exists_forall₂_iff]
  exact ⟨fun ⟨_, bss, h, _⟩ => ⟨bss, h⟩, fun ⟨bss, h⟩ => ⟨_, bss, h, rfl⟩⟩

/-- The first place at which nothing can be found decides. -/
theorem gather_eq_error_iff {f : Fault} : gather find as = .error f ↔
    ∃ before a after, as = before ++ a :: after ∧ (∀ a' ∈ before, ∃ bs, find a' = .ok bs) ∧
      find a = .error f := by
  rw [gather, bind_eq_error_iff, mapM_eq_error_iff, or_iff_left]
  rintro ⟨bss, -, h⟩
  cases h

end Gather

/-- The identifier that names a field, if its name is one. -/
def identOf (f : FieldDecl) : Ident := (Ident.parse? f.name).getD ⟨f.name⟩

/-- What a field that embeds a base gives itself: nothing, but its name is read. -/
def linkPaths (d : TypeDecl) (f : FieldDecl) : Except Fault (List PublicPath) :=
  if f.isStatic || f.isDependency then .ok []
  else do
    let _ ← readIdent d f.name
    return []

/-- What is found at one place. -/
def sitePaths (d : TypeDecl) (s : Site) : Except Fault (List PublicPath) :=
  if s.IsReached then
    if s.embeds then linkPaths d s.field else fieldPaths d (s.hops.map identOf) none s.field
  else .ok []

section Collected

variable {d : TypeDecl} {level : Level} {es : List Embedding} {hops : List FieldDecl}
  {f : FieldDecl} {s : Site}

theorem prefix_of_mem_sites (hs : s ∈ sites hops level es) : hops <+: s.hops := by
  induction es generalizing hops level with
  | nil =>
    obtain ⟨f, -, rfl⟩ := List.mem_map.1 hs
    exact List.prefix_rfl
  | cons e rest ih =>
    obtain ⟨f, -, hs⟩ := List.mem_flatMap.1 hs
    split at hs
    · obtain rfl | hs := List.mem_cons.1 hs
      · exact List.prefix_rfl
      · exact (List.prefix_append hops [f]).trans (ih hs)
    · obtain rfl := List.mem_singleton.1 hs
      exact List.prefix_rfl

/-- Behind a field that is not open nothing is found. -/
theorem gather_sites_of_not_open (hf : ¬ IsOpen f) :
    gather (sitePaths d) (sites (hops ++ [f]) level es) = .ok [] := by
  refine gather_eq_nil fun s hs => if_neg fun hreached => hf (hreached f ?_)
  exact (prefix_of_mem_sites hs).subset (by simp)

theorem identOf_of_readIdent {name : Ident} (h : readIdent d f.name = .ok name) :
    identOf f = name := by
  rw [identOf, readOr_eq_ok_iff.1 h, Option.getD_some]

theorem fieldPaths_of_ne {e : Embedding} {path : List Ident}
    {below : List Ident → Except Fault (List PublicPath)} (hne : e.field ≠ f.name) :
    fieldPaths d path (some (e.field, below)) f = fieldPaths d path none f := by
  have hnone : (some (e.field, below)).filter (fun b => b.1 == f.name) = none := by simp [hne]
  simp only [fieldPaths, hnone, Option.filter_none]

/-- A field that embeds a base gives what it gives itself and, if it is open, what is found below
it. -/
theorem fieldPaths_of_eq {path : List Ident}
    {below : List Ident → Except Fault (List PublicPath)} {found : Except Fault (List PublicPath)}
    (hopen : IsOpen f → below (path ++ [identOf f]) = found)
    (hclosed : ¬ IsOpen f → found = .ok []) :
    fieldPaths d path (some (f.name, below)) f =
      do return (← linkPaths d f) ++ (← found) := by
  have hsome : (some (f.name, below)).filter (fun b => b.1 == f.name) = some (f.name, below) := by
    simp
  by_cases hskip : (f.isStatic || f.isDependency) = true
  · rw [hclosed fun h => by simp [h.notStatic, h.notDependency] at hskip]
    simp only [fieldPaths, linkPaths, if_pos hskip]
    rfl
  · simp only [fieldPaths, linkPaths, if_neg hskip, hsome]
    cases hname : readIdent d f.name with
    | error fault => rfl
    | ok name =>
      cases hpublic : f.isPublic with
      | true =>
        rw [Bool.not_eq_true, Bool.or_eq_false_iff] at hskip
        rw [← hopen ⟨hpublic, hskip.1, hskip.2⟩, identOf_of_readIdent hname]
        change below (path ++ [name]) = (do return [] ++ (← below (path ++ [name])))
        simp
      | false =>
        rw [hclosed fun h => by simp [h.isPublic] at hpublic]
        rfl

/-- The paths of a level are what is found at its fields and those of the bases, in their order. -/
theorem levelPaths_eq_gather (hopen : ∀ h ∈ hops, IsOpen h) :
    levelPaths d level es (hops.map identOf) = gather (sitePaths d) (sites hops level es) := by
  induction es generalizing hops level with
  | nil =>
    have hfind : ∀ f ∈ level.fields, fieldPaths d (hops.map identOf) none f =
        gather (sitePaths d) [⟨hops, f, false⟩] := by
      intro f _
      rw [gather_singleton]
      exact (if_pos hopen).symm
    have hall := gather_flatMap hfind
    rwa [← List.map_eq_flatMap] at hall
  | cons e rest ih =>
    refine gather_flatMap fun f _ => ?_
    split
    · -- the field embeds the base, whose fields stand right behind it
      next hname =>
      have hlink : sitePaths d ⟨hops, f, true⟩ = linkPaths d f := if_pos hopen
      rw [gather_cons, hlink, hname]
      refine fieldPaths_of_eq (fun hf => ?_) gather_sites_of_not_open
      rw [← ih (List.forall_mem_append.2 ⟨hopen, by simpa using hf⟩), List.map_append]
      rfl
    · next hname =>
      rw [gather_singleton, fieldPaths_of_ne hname]
      exact (if_pos hopen).symm

/-- A field that is followed stands among the fields, before those that it leads to. -/
theorem exists_site_of_hop {h : FieldDecl} (hs : s ∈ sites hops level es) (hh : h ∈ s.hops) :
    h ∈ hops ∨ ∃ s' ∈ sites hops level es, s'.field = h ∧ s'.hops <+: s.hops := by
  induction es generalizing hops level with
  | nil =>
    obtain ⟨f, -, rfl⟩ := List.mem_map.1 hs
    exact .inl hh
  | cons e rest ih =>
    obtain ⟨f, hf, hs⟩ := List.mem_flatMap.1 hs
    split at hs
    · next hname =>
      have hmem : ∀ s' ∈ (⟨hops, f, true⟩ : Site) :: sites (hops ++ [f]) e.base rest,
          s' ∈ sites hops level (e :: rest) := by
        intro s' hs'
        exact List.mem_flatMap.2 ⟨f, hf, by rwa [if_pos hname]⟩
      obtain rfl | hs := List.mem_cons.1 hs
      · exact .inl hh
      obtain hh | ⟨s', hs', hfield, hprefix⟩ := ih hs
      · obtain hh | hh := List.mem_append.1 hh
        · exact .inl hh
        · refine .inr ⟨⟨hops, f, true⟩, hmem _ List.mem_cons_self, ?_, ?_⟩
          · exact (List.mem_singleton.1 hh).symm
          · exact (List.prefix_append hops [f]).trans (prefix_of_mem_sites hs)
      · exact .inr ⟨s', hmem s' (List.mem_cons_of_mem _ hs'), hfield, hprefix⟩
    · obtain rfl := List.mem_singleton.1 hs
      exact .inl hh

end Collected

/-! ### What is found at one field -/

section Found

variable {d : TypeDecl} {s : Site} {c : Cause} {fault' : Fault}

/-- The name of a field that is looked at is read first, and its type if its value travels. -/
theorem sitePaths_of_visited (hs : s.IsVisited) :
    sitePaths d s = do
      let name ← readIdent d s.field.name
      if s.embeds || !s.field.isPublic then return []
      else
        let type ← readType d s.field.type
        let kind ← kindOf d s.field.name type
        if kind.isVoid then return [] else return [⟨s.hops.map identOf ++ [name], type, kind⟩] := by
  rw [sitePaths, if_pos hs.reached]
  cases hembeds : s.embeds with
  | true => simp [linkPaths, hs.notStatic, hs.notDependency]
  | false => simp [fieldPaths, hs.notStatic, hs.notDependency]

/-- Where the name and the type of a field that travels are read, its kind decides. -/
theorem sitePaths_of_type {name : Ident} {type : Ty} (hs : s.IsVisited)
    (hname : Ident.parse? s.field.name = some name) (hembeds : s.embeds = false)
    (hpublic : s.field.isPublic = true) (htype : Ty.parse? s.field.type = some type) :
    sitePaths d s = do
      let kind ← kindOf d s.field.name type
      if kind.isVoid then return [] else return [⟨s.hops.map identOf ++ [name], type, kind⟩] := by
  have hread : readIdent d s.field.name = .ok name := readOr_eq_ok_iff.2 hname
  have hreadType : readType d s.field.type = .ok type := readOr_eq_ok_iff.2 htype
  rw [sitePaths_of_visited hs, hread, hreadType, hembeds, hpublic]
  rfl

theorem sitePaths_of_fault (h : SiteFault s c) : sitePaths d s = .error (fault d c) := by
  cases h with
  | name hvisited hname =>
    have hread : readIdent d s.field.name = .error (fault d (.invalidType s.field.name)) :=
      readOr_eq_error_iff.2 ⟨hname, rfl⟩
    rw [sitePaths_of_visited hvisited, hread]
    rfl
  | type hvisited hname hembeds hpublic htype =>
    have hread : readIdent d s.field.name = .ok _ := readOr_eq_ok_iff.2 hname
    have hreadType : readType d s.field.type = .error (fault d (.invalidType s.field.type)) :=
      readOr_eq_error_iff.2 ⟨htype, rfl⟩
    rw [sitePaths_of_visited hvisited, hread, hreadType, hembeds, hpublic]
    rfl
  | @kind _ type reason hvisited hname hembeds hpublic htype hkind =>
    have hkindOf : kindOf d s.field.name type =
        .error (fault d (.unsupportedFieldType s.field.name type.text reason.message)) := by
      simp only [kindOf, hkind]
    rw [sitePaths_of_type hvisited hname hembeds hpublic htype, hkindOf]
    rfl

/-- A field that is not looked at has nothing amiss and gives nothing. -/
theorem sitePaths_of_not_visited (h : ¬ s.IsVisited) : sitePaths d s = .ok [] := by
  by_cases hreached : s.IsReached
  · have hskip : (s.field.isStatic || s.field.isDependency) = true := by
      by_contra hstays
      rw [Bool.not_eq_true, Bool.or_eq_false_iff] at hstays
      exact h ⟨hreached, hstays.1, hstays.2⟩
    rw [sitePaths, if_pos hreached]
    cases s.embeds with
    | true => simp only [linkPaths, hskip, if_true]
    | false => simp only [fieldPaths, hskip, if_true, Bool.false_eq_true, if_false]
  · exact if_neg hreached

theorem Site.IsPlanned.isVisited (h : s.IsPlanned d) : s.IsVisited :=
  ⟨h.reached, h.isOpen.notStatic, h.isOpen.notDependency⟩

theorem Site.IsSound.parse_name (h : s.IsSound) (hs : s.IsVisited) :
    Ident.parse? s.field.name = some (identOf s.field) := by
  cases hname : Ident.parse? s.field.name with
  | none => exact absurd (.name hs hname) (h _)
  | some name => rw [identOf, hname, Option.getD_some]

/-- Where nothing is amiss, a field that travels is found, and of others there is nothing. -/
theorem sitePaths_of_sound (h : s.IsSound) :
    s.IsPlanned d ∧ (∃ type kind, Ty.parse? s.field.type = some type ∧ Kind.of type = .ok kind ∧
        sitePaths d s = .ok [⟨(s.hops ++ [s.field]).map identOf, type, kind⟩]) ∨
      ¬ s.IsPlanned d ∧ sitePaths d s = .ok [] := by
  by_cases hs : s.IsVisited
  swap
  · exact .inr ⟨fun hplanned => hs hplanned.isVisited, sitePaths_of_not_visited hs⟩
  have hname := h.parse_name hs
  by_cases htravels : s.embeds = false ∧ s.field.isPublic = true
  swap
  · have hskip : (s.embeds || !s.field.isPublic) = true := by
      cases hembeds : s.embeds <;> cases hpublic : s.field.isPublic <;>
        simp [hembeds, hpublic] at htravels ⊢
    have hread : readIdent d s.field.name = .ok (identOf s.field) := readOr_eq_ok_iff.2 hname
    refine .inr ⟨fun hplanned => htravels ⟨hplanned.notEmbeds, hplanned.isOpen.isPublic⟩, ?_⟩
    rw [sitePaths_of_visited hs, hread, hskip]
    rfl
  obtain ⟨hembeds, hpublic⟩ := htravels
  cases htype : Ty.parse? s.field.type with
  | none => exact absurd (.type hs hname hembeds hpublic htype) (h _)
  | some type =>
    cases hkind : Kind.of type with
    | error reason => exact absurd (.kind hs hname hembeds hpublic htype hkind) (h _)
    | ok kind =>
      have hreadType : readType d s.field.type = .ok type := readOr_eq_ok_iff.2 htype
      rw [sitePaths_of_type hs hname hembeds hpublic htype, kindOf_eq_ok_iff.2 hkind]
      by_cases hvoid : kind = .void
      · subst hvoid
        exact .inr ⟨fun hplanned => hplanned.holds ⟨type, hreadType, hkind⟩, rfl⟩
      · refine .inl ⟨⟨hs.reached, ⟨hpublic, hs.notStatic, hs.notDependency⟩, hembeds, ?_⟩,
          type, kind, rfl, hkind, ?_⟩
        · rintro ⟨type', htype', hnothing⟩
          cases hreadType.symm.trans htype'
          cases hkind.symm.trans hnothing
          exact hvoid rfl
        · rw [List.map_append]
          cases kind with
          | void => exact absurd rfl hvoid
          | _ => rfl

theorem sitePaths_eq_error_iff :
    sitePaths d s = .error fault' ↔ ∃ c, SiteFault s c ∧ fault' = fault d c := by
  constructor
  · intro h
    by_contra hnone
    have hsound : s.IsSound := by
      intro c hc
      rw [sitePaths_of_fault hc] at h
      cases h
      exact hnone ⟨c, hc, rfl⟩
    obtain ⟨-, type, kind, -, -, hok⟩ | ⟨-, hok⟩ := sitePaths_of_sound (d := d) hsound
    all_goals cases h.symm.trans hok
  · rintro ⟨c, hc, rfl⟩
    exact sitePaths_of_fault hc

theorem exists_sitePaths_eq_ok_iff : (∃ paths, sitePaths d s = .ok paths) ↔ s.IsSound := by
  constructor
  · rintro ⟨paths, hok⟩ c hc
    cases (sitePaths_of_fault hc).symm.trans hok
  · intro hsound
    obtain ⟨-, type, kind, -, -, hok⟩ | ⟨-, hok⟩ := sitePaths_of_sound (d := d) hsound
    exacts [⟨_, hok⟩, ⟨_, hok⟩]

end Found

end CodecForge.Plan
