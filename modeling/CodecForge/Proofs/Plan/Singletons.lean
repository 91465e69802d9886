import CodecForge.Proofs.Plan.Parameters
import CodecForge.Plan.CodecPlan

/-!
# Types with one value

The codec of a type with one value has nothing to be given by its caller, so a type that as a whole
depends on something has no such codec.  What the fields and the parameters of functions are marked
as makes no difference: none of them takes part in such a codec.
-/

namespace CodecForge.Plan

open CodecForge.Schema CodecForge.Source

variable {d : TypeDecl}

/-- Why the type as a whole stands in the way: its dependency cannot be read, or it is there. -/
inductive SingletonFault (d : TypeDecl) : Cause → Prop
  | unreadable {text : String} (htext : d.dependency = some text)
      (hread : Ty.parse? text = none) : SingletonFault d (.invalidType text)
  | dependent {text : String} {t : Ty} (htext : d.dependency = some text)
      (hread : Ty.parse? text = some t) (hvalue : Kind.of t ≠ .ok .void) :
      SingletonFault d .singletonWithDependency

theorem select_singleton_of_independent (h : Independent d) :
    select d .singleton = (readPath d (instanceText d)).map .singleton := by
  have htype : typeDependency d = .ok none := by
    obtain ⟨-, -, htype⟩ | ⟨hd, -⟩ | ⟨_, hd, -⟩ := typeDependency_cases (d := d)
    · exact htype
    · exact absurd h hd
    · exact absurd h hd
  simp only [select, htype]
  cases readPath d (instanceText d) <;> rfl

theorem exists_singletonFault (h : ¬ Independent d) :
    ∃ cause, SingletonFault d cause ∧ select d .singleton = .error (fault d cause) := by
  obtain ⟨hd, -⟩ | ⟨-, hfault, t, htype⟩ | ⟨text, -, hfault, htype⟩ := typeDependency_cases (d := d)
  · exact absurd hd h
  · obtain ⟨text, htext, ⟨-, h⟩ | ⟨t, hread, hvalue, -⟩⟩ := (hfault _).2 rfl
    · cases h
    · refine ⟨_, .dependent htext hread hvalue, ?_⟩
      simp only [select, htype]
      rfl
  · obtain ⟨text', htext, ⟨hread, h⟩ | ⟨_, _, _, h⟩⟩ := (hfault _).2 rfl
    · cases h
      refine ⟨_, .unreadable htext hread, ?_⟩
      simp only [select, htype]
      rfl
    · cases h

/-- A type has a codec for its one value exactly where it has no dependency as a whole, or one that
holds nothing, and the path of the value can be read.  A dependency that holds something is the
fault that is reported, or else that it cannot be read.  The fields, the constructors and the
factories, and so the dependencies that are marked there, are not looked at. -/
theorem select_singleton (d : TypeDecl) :
    (∀ plan, select d .singleton = .ok plan ↔
      Independent d ∧ ∃ path, Path.parse? (instanceText d) = some path ∧ plan = .singleton path) ∧
    (¬ Independent d →
      ∃ cause, SingletonFault d cause ∧ select d .singleton = .error (fault d cause)) ∧
    ∀ fields constructors factories,
      select { d with fields, constructors, factories } .singleton = select d .singleton := by
  refine ⟨fun plan => ?_, exists_singletonFault, fun _ _ _ => rfl⟩
  by_cases hd : Independent d
  · rw [select_singleton_of_independent hd, map_eq_ok_iff]
    simp only [readPath, readOr_eq_ok_iff, hd, true_and, eq_comm (b := plan)]
  · obtain ⟨cause, -, herror⟩ := exists_singletonFault hd
    simp [herror, hd]

/-- A type whose only constructor takes a dependency. -/
def root : TypeDecl where
  name := "Root"
  constructors := [{
    name := "new"
    params := [{ name := "context", type := some "Context", isDependency := true }] }]

/-- The codec of its one value is planned all the same. -/
theorem select_singleton_of_marked_parameter :
    (∃ plan, select root .singleton = .ok plan) ∧
      ∃ m ∈ root.constructors, ∃ q ∈ m.params, q.isDependency = true := by
  refine ⟨exists_of_isOk (by decide +kernel), _, List.mem_cons_self, _, List.mem_cons_self, rfl⟩

end CodecForge.Plan
