import CodecForge.Plan.Reach
import Mathlib.Data.List.Basic

/-!
# Where a field is found

The fields of a type stand before those of its bases, and those of a nearer base before those of
one further away: a lookup finds the first field of values that has the name.
-/

namespace CodecForge.Plan

open CodecForge.Schema

variable {d : TypeDecl} {level : Level} {es : List Embedding} {name : String} {f : FieldDecl}

/-- The fields that values have. -/
def instanceFields (level : Level) : List FieldDecl := level.fields.filter fun f => !f.isStatic

/-- The type itself and its bases, the nearest first. -/
def levels (d : TypeDecl) : List Level := d.toLevel :: d.ancestors.map Embedding.base

/-- All fields, in the order in which they hide one another. -/
def allFields (d : TypeDecl) : List FieldDecl := (levels d).flatMap Level.fields

/-- The field belongs to values and has the name, and no field before it does. -/
def IsNearest (d : TypeDecl) (name : String) (f : FieldDecl) : Prop :=
  f.name = name ∧ f.isStatic = false ∧
    ∃ before after, allFields d = before ++ f :: after ∧
      ∀ g ∈ before, g.name = name → g.isStatic = true

theorem findFrom_field :
    (findFrom name level es).map Found.field =
      (level :: es.map Embedding.base).findSome? fun l => instanceField? l name := by
  induction es generalizing level with
  | nil => simp [findFrom, Function.comp_def]
  | cons e rest ih =>
    have hthrough : Found.field ∘ Found.through e.field (exposes level e.field) = Found.field := rfl
    rw [findFrom, List.map_cons, List.findSome?_cons, ← ih]
    cases instanceField? level name with
    | some f => rfl
    | none => simp only [Option.map_map, hthrough]

theorem findField_field :
    (findField d name).map Found.field =
      (allFields d).find? fun f => f.name == name && !f.isStatic := by
  rw [findField, findFrom_field, allFields, List.find?_flatMap]
  rfl

/-- A lookup passes over the fields of other names and over those that are not of values. -/
theorem passedOver_iff {g : FieldDecl} :
    (g.name == name && !g.isStatic) = false ↔ (g.name = name → g.isStatic = true) := by
  by_cases h : g.name = name <;> simp [h]

theorem isNearest_iff :
    IsNearest d name f ↔ ∃ found, findField d name = some found ∧ found.field = f := by
  rw [← Option.map_eq_some_iff, findField_field, List.find?_eq_some_iff_append]
  simp only [IsNearest, passedOver_iff, Bool.and_eq_true, beq_iff_eq, Bool.not_eq_true', and_assoc]

theorem findField_eq_none_iff : findField d name = none ↔ ∀ f, ¬ IsNearest d name f := by
  simp only [isNearest_iff]
  cases findField d name <;> simp

end CodecForge.Plan
