import CodecForge.Proofs.Plan.Reach

/-!
# The level of a found field

A type and its bases are levels, the nearest first.  A field is found exactly if some level declares
it, and then at the first such level, by a path through the fields that embed the levels above it.
-/

namespace CodecForge.Plan

open CodecForge.Schema

variable {d : TypeDecl} {level l : Level} {es : List Embedding} {hops : List Hop} {f : FieldDecl}
  {name : String} {found : Found}

/-! ### Levels that declare a field -/

/-- The level has a field of values with the name. -/
def Declares (level : Level) (name : String) : Prop :=
  ∃ f ∈ level.fields, f.name = name ∧ f.isStatic = false

/-- The field is the first one of values in the level that has the name. -/
def IsFirst (level : Level) (name : String) (f : FieldDecl) : Prop :=
  f.name = name ∧ f.isStatic = false ∧ ∃ before after, level.fields = before ++ f :: after ∧
    ∀ g ∈ before, g.name = name → g.isStatic = true

theorem isFirst_iff : IsFirst level name f ↔ instanceField? level name = some f := by
  rw [instanceField?, List.find?_eq_some_iff_append]
  simp only [IsFirst, passedOver_iff, Bool.and_eq_true, beq_iff_eq, Bool.not_eq_true', and_assoc]

theorem not_declares_iff : ¬ Declares level name ↔ instanceField? level name = none := by
  rw [instanceField?, List.find?_eq_none]
  simp [Declares]

/-! ### Levels on the way -/

/-- The hops of a way leave the levels above the one that declares the field, in order. -/
theorem Way.levels (h : Way name level es hops l f) :
    hops.map Hop.level = (level :: es.map Embedding.base).take hops.length := by
  induction h with
  | here => rfl
  | further _ _ ih => rw [List.map_cons, ih]; rfl

theorem Way.names (h : Way name level es hops l f) :
    hops.map Hop.name = (es.take hops.length).map Embedding.field := by
  induction h with
  | here => rfl
  | further _ _ ih => rw [List.map_cons, ih]; rfl

theorem Way.declaring (h : Way name level es hops l f) :
    (level :: es.map Embedding.base)[hops.length]? = some l := by
  induction h with
  | here => rfl
  | further _ _ ih => exact ih

theorem Way.hidden (h : Way name level es hops l f) :
    ∀ l ∈ hops.map Hop.level, ¬ Declares l name := by
  induction h with
  | here => exact List.forall_mem_nil _
  | further hnone _ ih => exact List.forall_mem_cons.2 ⟨not_declares_iff.2 hnone, ih⟩

/-- The lookup leads to the level at the depth: no level above it declares the field, it is the
first one there, and the path passes through the fields that embed the levels above. -/
structure Found.IsAt (found : Found) (d : TypeDecl) (name : String) (depth : Nat) : Prop where
  declaring : (levels d)[depth]? = some found.declaring
  nearest : ∀ l ∈ (levels d).take depth, ¬ Declares l name
  first : IsFirst found.declaring name found.field
  path : found.path = (d.ancestors.take depth).map Embedding.field ++ [found.field.name]

theorem Found.Follows.isAt (h : found.Follows name d.toLevel d.ancestors hops) :
    found.IsAt d name hops.length where
  declaring := h.way.declaring
  nearest l hl := h.way.hidden l (h.way.levels ▸ hl)
  first := isFirst_iff.2 h.way.instanceField?
  path := by
    rw [h.path, followed, List.map_append, h.way.names, List.map_singleton,
      (mem_of_instanceField? h.way.instanceField?).2]

theorem exists_findField_iff :
    (∃ found, findField d name = some found) ↔ ∃ l ∈ levels d, Declares l name := by
  rw [← Option.isSome_iff_exists, ← Option.isSome_map, findField_field, List.find?_isSome]
  simp only [allFields, List.mem_flatMap, Declares, Bool.and_eq_true, beq_iff_eq,
    Bool.not_eq_true']
  constructor
  · rintro ⟨f, ⟨l, hl, hf⟩, hname⟩
    exact ⟨l, hl, f, hf, hname⟩
  · rintro ⟨l, hl, f, hf, hname⟩
    exact ⟨f, ⟨l, hl, hf⟩, hname⟩

/-- A field is found exactly if the type or one of its bases declares it, and then it is the first
one of the nearest level that does.  The path to it passes through the fields that embed the levels
above, each of them once. -/
theorem findField_nearest (d : TypeDecl) (name : String) :
    ((∃ found, findField d name = some found) ↔ ∃ l ∈ levels d, Declares l name) ∧
    (∀ found, findField d name = some found →
      ∃ depth, found.IsAt d name depth ∧ found.path.length = depth + 1) ∧
    (findField d name = none ↔ ∀ l ∈ levels d, ¬ Declares l name) := by
  refine ⟨exists_findField_iff, fun found hfound => ?_, ?_⟩
  · obtain ⟨hops, hfollows⟩ := exists_follows hfound
    refine ⟨hops.length, hfollows.isAt, ?_⟩
    rw [hfollows.path, followed, List.length_map, List.length_append, List.length_singleton]
  · rw [Option.eq_none_iff_forall_ne_some, ← not_exists, exists_findField_iff]
    simp

/-- A disc with a static field of the name, in which a circle embeds a shape. -/
example : ((findField
      { name := "Disc"
        fields := [{ name := "id", type := "u8", isStatic := true }]
        ancestors := [⟨"circle", { name := "Circle" }⟩,
          ⟨"shape", { name := "Shape", fields := [{ name := "id", type := "u32" }] }⟩] }
      "id").map Found.path) = some ["circle", "shape", "id"] := by decide

end CodecForge.Plan
