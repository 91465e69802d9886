import Mathlib.Data.List.Induction
import CodecForge.Proofs.Lists
import CodecForge.Wire.Value

/-!
# Fields at paths

A value is a tree of named fields.  Setting the field at a path leaves the fields apart from the
path, and setting the fields at several paths, of which none leads through another, sets each of
them.
-/

namespace CodecForge.Wire.Value

/-! ### Fields of one record -/

/-- The names of the fields of a record. -/
def names : Value → List String
  | record fields => fields.map Prod.fst
  | _ => []

variable {v x : Value} {name name' : String} {f : Value → Value} {p q : List String}

@[simp] theorem names_modifyField : (v.modifyField name f).names = v.names := by
  cases v with
  | record fields =>
    simp only [modifyField, names, List.map_map]
    refine List.map_congr_left fun e _ => ?_
    simp only [Function.comp_apply]
    split <;> rfl
  | _ => rfl

theorem isSome_lookup_of_mem_names {fields : List (String × Value)}
    (h : name ∈ (record fields).names) : ∃ y, fields.lookup name = some y := by
  obtain ⟨e, he, rfl⟩ := List.mem_map.1 h
  refine Option.ne_none_iff_exists'.1 fun hnone => ?_
  simpa using List.lookup_eq_none_iff.1 hnone e he

theorem field_modifyField (h : name ∈ v.names) :
    (v.modifyField name f).field name = f (v.field name) := by
  cases v with
  | record fields =>
    obtain ⟨y, hy⟩ := isSome_lookup_of_mem_names h
    simp only [modifyField, field, lookup_map_modify, hy, if_true, Option.map_some,
      Option.getD_some]
  | _ => cases h

theorem field_modifyField_of_ne (h : name' ≠ name) :
    (v.modifyField name f).field name' = v.field name' := by
  cases v with
  | record fields => simp only [modifyField, field, lookup_map_modify, if_neg h]
  | _ => rfl

/-! ### Paths -/

@[simp] theorem fieldAt_cons : v.fieldAt (name :: p) = (v.field name).fieldAt p := rfl

/-- The path leads from field to field of the value. -/
def HasPath : Value → List String → Prop
  | _, [] => True
  | v, name :: rest => name ∈ v.names ∧ (v.field name).HasPath rest

/-- Neither path leads through the end of the other. -/
def Apart (p q : List String) : Prop := ¬ p <+: q ∧ ¬ q <+: p

theorem apart_of_ne (h : name ≠ name') : Apart (name :: p) (name' :: q) := by
  simp [Apart, List.cons_prefix_cons, h, h.symm]

theorem apart_cons (h : Apart p q) : Apart (name :: p) (name :: q) := by
  simpa [Apart, List.cons_prefix_cons] using h

theorem Apart.of_cons (h : Apart (name :: p) (name :: q)) : Apart p q := by
  simpa [Apart, List.cons_prefix_cons] using h

theorem fieldAt_setAt_cons (hname : name ∈ v.names) :
    (setAt x (name :: p) v).fieldAt (name :: q) = (setAt x p (v.field name)).fieldAt q := by
  rw [setAt, fieldAt_cons, field_modifyField hname]

theorem fieldAt_setAt_cons_of_ne (hname : name' ≠ name) :
    (setAt x (name :: p) v).fieldAt (name' :: q) = v.fieldAt (name' :: q) := by
  rw [setAt, fieldAt_cons, fieldAt_cons, field_modifyField_of_ne hname]

theorem fieldAt_setAt (h : v.HasPath p) : (setAt x p v).fieldAt p = x := by
  induction p generalizing v with
  | nil => rfl
  | cons name p ih =>
    rw [fieldAt_setAt_cons h.1]
    exact ih h.2

theorem fieldAt_setAt_of_apart (hp : v.HasPath p) (h : Apart p q) :
    (setAt x p v).fieldAt q = v.fieldAt q := by
  induction p generalizing v q with
  | nil => exact absurd List.nil_prefix h.1
  | cons name p ih =>
    cases q with
    | nil => exact absurd List.nil_prefix h.2
    | cons name' q =>
      by_cases hname : name' = name
      · subst hname
        rw [fieldAt_setAt_cons hp.1, fieldAt_cons]
        exact ih hp.2 h.of_cons
      · exact fieldAt_setAt_cons_of_ne hname

/-- What does not lie behind the path keeps the names of its fields. -/
theorem names_fieldAt_setAt (hp : v.HasPath p) (h : ¬ p <+: q) :
    ((setAt x p v).fieldAt q).names = (v.fieldAt q).names := by
  induction p generalizing v q with
  | nil => exact absurd List.nil_prefix h
  | cons name p ih =>
    cases q with
    | nil => exact names_modifyField
    | cons name' q =>
      by_cases hname : name' = name
      · subst hname
        rw [fieldAt_setAt_cons hp.1, fieldAt_cons]
        exact ih hp.2 fun hpq => h ((List.prefix_cons_inj name').2 hpq)
      · rw [fieldAt_setAt_cons_of_ne hname]

theorem hasPath_setAt (hq : v.HasPath q) (h : p <+: q → p = q) : (setAt x p v).HasPath q := by
  induction p generalizing v q with
  | nil =>
    rw [← h List.nil_prefix]
    trivial
  | cons name p ih =>
    cases q with
    | nil => trivial
    | cons name' q =>
      rw [setAt]
      refine ⟨by simpa using hq.1, ?_⟩
      by_cases hname : name' = name
      · subst hname
        rw [field_modifyField hq.1]
        refine ih hq.2 fun hpq => ?_
        exact (List.cons.inj (h ((List.prefix_cons_inj name').2 hpq))).2
      · rw [field_modifyField_of_ne hname]
        exact hq.2

/-! ### Setting several fields -/

/-- Sets the fields at the paths, one after the other, to what they are in `v`. -/
def restore (v : Value) (paths : List (List String)) (old : Value) : Value :=
  paths.foldl (fun x p => setAt (v.fieldAt p) p x) old

/-- Of the fields of `x`, those at the paths are the ones of `v`, and all that is apart from the
paths is as in `old`.  What the paths lead through has the fields that it has in `old`. -/
structure Restored (v : Value) (paths : List (List String)) (old x : Value) : Prop where
  at_path : ∀ p ∈ paths, x.fieldAt p = v.fieldAt p
  apart : ∀ q, (∀ p ∈ paths, Apart p q) → x.fieldAt q = old.fieldAt q
  names : ∀ q, (∀ p ∈ paths, ¬ p <+: q) → (x.fieldAt q).names = (old.fieldAt q).names

theorem restore_append_singleton (paths : List (List String)) (p : List String) (old : Value) :
    restore v (paths ++ [p]) old = setAt (v.fieldAt p) p (restore v paths old) := by
  rw [restore, List.foldl_append]
  rfl

theorem hasPath_restore {paths : List (List String)} {old : Value} (hq : old.HasPath q)
    (h : ∀ p ∈ paths, p <+: q → p = q) : (restore v paths old).HasPath q := by
  induction paths generalizing old with
  | nil => exact hq
  | cons p paths ih =>
    rw [List.forall_mem_cons] at h
    exact ih (hasPath_setAt hq h.1) h.2

/-- Fields of which none lies within another can be set in any order. -/
theorem restored_restore {paths : List (List String)} {old : Value}
    (hpaths : ∀ p ∈ paths, old.HasPath p)
    (hapart : ∀ p ∈ paths, ∀ q ∈ paths, p = q ∨ Apart p q) :
    Restored v paths old (restore v paths old) := by
  -- the path that is set last finds the others set, and leaves what is apart from it
  induction paths using List.reverseRecOn with
  | nil => exact ⟨by simp, fun _ _ => rfl, fun _ _ => rfl⟩
  | append_singleton paths p ih =>
    have hinit : ∀ q ∈ paths, q ∈ paths ++ [p] := fun q hq => List.mem_append_left _ hq
    have hlast : p ∈ paths ++ [p] := List.mem_append_right _ List.mem_cons_self
    have hbefore := ih (fun q hq => hpaths q (hinit q hq))
      fun q hq r hr => hapart q (hinit q hq) r (hinit r hr)
    have hp : (restore v paths old).HasPath p := by
      refine hasPath_restore (hpaths p hlast) fun q hq hqp => ?_
      exact (hapart q (hinit q hq) p hlast).resolve_right fun h => h.1 hqp
    rw [restore_append_singleton]
    refine ⟨fun q hq => ?_, fun q hq => ?_, fun q hq => ?_⟩
    · rcases hapart p hlast q hq with rfl | h
      · exact fieldAt_setAt hp
      · rw [fieldAt_setAt_of_apart hp h]
        refine hbefore.at_path q ((List.mem_append.1 hq).resolve_right fun hmem => ?_)
        rw [List.mem_singleton.1 hmem] at h
        exact h.1 (List.prefix_refl p)
    · rw [fieldAt_setAt_of_apart hp (hq p hlast)]
      exact hbefore.apart q fun r hr => hq r (hinit r hr)
    · rw [names_fieldAt_setAt hp (hq p hlast)]
      exact hbefore.names q fun r hr => hq r (hinit r hr)

end CodecForge.Wire.Value
