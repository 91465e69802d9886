import CodecForge.Plan.Construction
import CodecForge.Proofs.Lists
import CodecForge.Proofs.Plan.Lookup

/-!
# Parameters and dependencies

A parameter has the type that is declared for it, or else that of the nearest field of its name.
One parameter at most is a dependency, and none where the type as a whole has a dependency.
-/

namespace CodecForge.Plan

open CodecForge.Schema CodecForge.Source

variable {d : TypeDecl} {q : ParamDecl} {p : Param} {c : Construction} {f : Fault}

/-! ### Parameters -/

/-- Where the type of a parameter stands: with the parameter, or with the nearest field of its
name. -/
inductive TypeSource (d : TypeDecl) (q : ParamDecl) : String → Prop
  | own {text : String} (h : q.type = some text) : TypeSource d q text
  | field {f : FieldDecl} (h : q.type = none) (hfield : IsNearest d q.name f) :
      TypeSource d q f.type

/-- The parameter that a declared one is, once its name and its type are read. -/
structure Typed (d : TypeDecl) (q : ParamDecl) (p : Param) : Prop where
  name : Ident.parse? q.name = some p.name
  type : ∃ text, TypeSource d q text ∧ Ty.parse? text = some p.type
  isDependency : p.isDependency = q.isDependency

/-- Why a declared parameter is none. -/
inductive ParamFault (d : TypeDecl) (q : ParamDecl) : Cause → Prop
  | missing (h : q.type = none) (hfield : ∀ f, ¬ IsNearest d q.name f) :
      ParamFault d q (.fieldNotFound q.name)
  | type {text : String} (htext : TypeSource d q text) (hread : Ty.parse? text = none) :
      ParamFault d q (.invalidType text)
  | name {text : String} {t : Ty} (htext : TypeSource d q text) (hread : Ty.parse? text = some t)
      (hname : Ident.parse? q.name = none) : ParamFault d q (.invalidType q.name)

/-- A parameter has one type at most to read, and without any it is in want of a field. -/
theorem paramType_eq : (∃ text, TypeSource d q text ∧ paramType d q = readType d text ∧
      ∀ text', TypeSource d q text' → text' = text) ∨
    q.type = none ∧ (∀ f, ¬ IsNearest d q.name f) ∧
      paramType d q = .error (fault d (.fieldNotFound q.name)) := by
  unfold paramType
  cases htype : q.type with
  | some text =>
    refine .inl ⟨text, .own htype, rfl, fun text' h => ?_⟩
    cases h with
    | own h => exact Option.some.inj (h.symm.trans htype)
    | field h => simp [htype] at h
  | none =>
    cases hfound : findField d q.name with
    | none => exact .inr ⟨rfl, findField_eq_none_iff.1 hfound, rfl⟩
    | some found =>
      refine .inl ⟨found.field.type, .field htype (isNearest_iff.2 ⟨found, hfound, rfl⟩), rfl, ?_⟩
      intro text' h
      cases h with
      | own h => simp [htype] at h
      | field _ hfield =>
        obtain ⟨found', hfound', rfl⟩ := isNearest_iff.1 hfield
        rw [Option.some.inj (hfound.symm.trans hfound')]

theorem resolveParam_eq_ok_iff : resolveParam d q = .ok p ↔ Typed d q p := by
  have hread : (∃ t, paramType d q = .ok t ∧ t = p.type) ↔
      ∃ text, TypeSource d q text ∧ Ty.parse? text = some p.type := by
    rcases paramType_eq (d := d) (q := q) with ⟨text, htext, heq, hone⟩ | ⟨hnone, hfield, heq⟩
    · rw [heq]
      simp only [readType, readOr_eq_ok_iff, exists_eq_right]
      constructor
      · exact fun h => ⟨text, htext, h⟩
      · rintro ⟨text', htext', h⟩
        exact hone text' htext' ▸ h
    · rw [heq]
      simp only [reduceCtorEq, false_and, exists_false, false_iff, not_exists, not_and]
      rintro text htext
      cases htext with
      | own h => simp [hnone] at h
      | field _ h => exact absurd h (hfield _)
  simp only [resolveParam, bind_eq_ok_iff, readIdent, readOr_eq_ok_iff]
  constructor
  · rintro ⟨t, ht, name, hname, h⟩
    cases h
    exact ⟨hname, hread.1 ⟨t, ht, rfl⟩, rfl⟩
  · rintro ⟨hname, htype, hdependency⟩
    obtain ⟨t, ht, rfl⟩ := hread.2 htype
    refine ⟨_, ht, p.name, hname, ?_⟩
    rw [← hdependency]
    rfl

theorem resolveParam_eq_error_iff :
    resolveParam d q = .error f ↔ ∃ cause, ParamFault d q cause ∧ f = fault d cause := by
  simp only [resolveParam, bind_eq_error_iff, readIdent, readOr_eq_error_iff]
  rcases paramType_eq (d := d) (q := q) with ⟨text, htext, heq, hone⟩ | ⟨hnone, hfield, heq⟩
  · simp only [heq, readType, readOr_eq_error_iff, readOr_eq_ok_iff]
    constructor
    · rintro (⟨hread, rfl⟩ | ⟨t, hread, ⟨hname, rfl⟩ | ⟨_, _, h⟩⟩)
      · exact ⟨_, .type htext hread, rfl⟩
      · exact ⟨_, .name htext hread hname, rfl⟩
      · cases h
    · rintro ⟨cause, h, rfl⟩
      cases h with
      | missing h hfield =>
        cases htext with
        | own h' => simp [h] at h'
        | field _ h' => exact absurd h' (hfield _)
      | type htext' hread =>
        cases hone _ htext'
        exact .inl ⟨hread, rfl⟩
      | name htext' hread hname =>
        cases hone _ htext'
        exact .inr ⟨_, hread, .inl ⟨hname, rfl⟩⟩
  · simp only [heq, Except.error.injEq, reduceCtorEq, false_and, exists_false, or_false]
    constructor
    · rintro rfl
      exact ⟨_, .missing hnone hfield, rfl⟩
    · have hsource : ∀ text, ¬ TypeSource d q text := by
        rintro text (h | ⟨-, h⟩)
        · simp [hnone] at h
        · exact hfield _ h
      rintro ⟨cause, h, rfl⟩
      cases h with
      | missing => rfl
      | type htext => exact absurd htext (hsource _)
      | name htext => exact absurd htext (hsource _)

theorem resolveParams_eq_ok_iff {called : String} {declared : List ParamDecl}
    {params : List Param} : resolveParams d called declared = .ok params ↔
      (declared.filter ParamDecl.isDependency).length ≤ 1 ∧
        List.Forall₂ (Typed d) declared params := by
  unfold resolveParams
  split
  · next h => simp [Nat.not_le.2 h]
  · next h => simp only [mapM_eq_ok_iff, resolveParam_eq_ok_iff, Nat.not_lt.1 h, true_and]

theorem resolveParams_eq_error_iff {called : String} {declared : List ParamDecl} :
    resolveParams d called declared = .error f ↔
      (1 < (declared.filter ParamDecl.isDependency).length ∧
        f = fault d (.multipleDependencyParameters called)) ∨
      (declared.filter ParamDecl.isDependency).length ≤ 1 ∧
        ∃ before q after, declared = before ++ q :: after ∧
          (∀ q' ∈ before, ∃ p, Typed d q' p) ∧
            ∃ cause, ParamFault d q cause ∧ f = fault d cause := by
  unfold resolveParams
  split
  · next h => simp [h, Nat.not_le.2 h, eq_comm]
  · next h =>
    simp only [mapM_eq_error_iff, resolveParam_eq_ok_iff, resolveParam_eq_error_iff, Nat.not_lt.1 h,
      h, false_and, false_or, true_and]

/-! ### Dependencies of the type as a whole -/

/-- The type as a whole has no dependency, or one that holds nothing. -/
def Independent (d : TypeDecl) : Prop :=
  ∀ text ∈ d.dependency, ∃ t, Ty.parse? text = some t ∧ Kind.of t = .ok .void

/-- Why no parameter can be a dependency: that of the type cannot be read, or it is there. -/
def DependencyFault (d : TypeDecl) (cause : Cause) : Prop :=
  ∃ text ∈ d.dependency, (Ty.parse? text = none ∧ cause = .invalidType text) ∨
    ∃ t, Ty.parse? text = some t ∧ Kind.of t ≠ .ok .void ∧ cause = .conflictingDependency

theorem typeDependency_cases :
    (Independent d ∧ (∀ cause, ¬ DependencyFault d cause) ∧ typeDependency d = .ok none) ∨
    (¬ Independent d ∧ (∀ cause, DependencyFault d cause ↔ cause = .conflictingDependency) ∧
      ∃ t, typeDependency d = .ok (some t)) ∨
    ∃ text, ¬ Independent d ∧ (∀ cause, DependencyFault d cause ↔ cause = .invalidType text) ∧
      typeDependency d = .error (fault d (.invalidType text)) := by
  unfold typeDependency
  cases htext : d.dependency with
  | none => simp [Independent, DependencyFault, htext]
  | some text =>
    simp only [readType]
    cases hread : Ty.parse? text with
    | none =>
      rw [readOr_eq_error_iff.2 ⟨hread, rfl⟩]
      refine .inr (.inr ⟨text, ?_, ?_, rfl⟩)
      · simp [Independent, htext, hread]
      · simp [DependencyFault, htext, hread]
    | some t =>
      rw [readOr_eq_ok_iff.2 hread]
      by_cases hvoid : Kind.of t = .ok .void
      · refine .inl ⟨?_, ?_, ?_⟩
        · simp [Independent, htext, hread, hvoid]
        · simp [DependencyFault, htext, hread, hvoid]
        · simp only [bind, Except.bind, hvoid]
          rfl
      · refine .inr (.inl ⟨?_, ?_, t, ?_⟩)
        · simp [Independent, htext, hread, hvoid]
        · simp [DependencyFault, htext, hread, hvoid]
        · simp only [bind, Except.bind]
          rfl

/-- The part of `resolve` that compares the dependencies. -/
def settle (d : TypeDecl) (c : Construction) : Except Fault Construction :=
  if c.dependency?.isSome then do
    if (← typeDependency d).isSome then throw (fault d .conflictingDependency)
    return c
  else .ok c

theorem settle_eq_ok_iff {c' : Construction} :
    settle d c = .ok c' ↔ c' = c ∧ (c.dependency?.isSome = true → Independent d) := by
  unfold settle
  cases c.dependency?.isSome with
  | false => simp [eq_comm]
  | true =>
    obtain ⟨hd, -, heq⟩ | ⟨hd, -, t, heq⟩ | ⟨text, hd, -, heq⟩ := typeDependency_cases (d := d)
    · simp [heq, hd, bind, Except.bind, pure, Except.pure, eq_comm]
    · simp [heq, hd, bind, Except.bind, throw, throwThe, MonadExceptOf.throw]
    · simp [heq, hd, bind, Except.bind]

theorem settle_eq_error_iff : settle d c = .error f ↔
    c.dependency?.isSome = true ∧ ∃ cause, DependencyFault d cause ∧ f = fault d cause := by
  unfold settle
  cases c.dependency?.isSome with
  | false => simp
  | true =>
    obtain ⟨-, hd, heq⟩ | ⟨-, hd, t, heq⟩ | ⟨text, -, hd, heq⟩ := typeDependency_cases (d := d)
    · simp [heq, hd, bind, Except.bind, pure, Except.pure]
    · simp [heq, hd, bind, Except.bind, throw, throwThe, MonadExceptOf.throw, eq_comm]
    · simp [heq, hd, bind, Except.bind, eq_comm]

end CodecForge.Plan
