import CodecForge.Plan.Construction
import CodecForge.Proofs.Lists

/-!
# What functions return

A constructor or a factory returns the declared type, or a result of it that may be an error
instead.  A factory that returns anything else, or that takes a receiver, is none.
-/

namespace CodecForge.Plan

open CodecForge.Schema CodecForge.Source

variable {d : TypeDecl} {m : MakerDecl} {f : Fault} {t error : Ty} {failure : Option Ty}

/-! ### Results -/

/-- A path to the declared type: its last name has no arguments and is `Self` or that of the
type. -/
def SelfLike (d : TypeDecl) (t : Ty) : Prop :=
  ∃ path last, t = .path path ∧ path.segments.getLast? = some last ∧ last.args.isEmpty = true ∧
    (last.ident.text = "Self" ∨ last.ident.text = d.name)

/-- A path that ends in `Result` with two types, of which the first is the declared one and the
second is the error. -/
def ResultLike (d : TypeDecl) (t error : Ty) : Prop :=
  ∃ last value, t.lastSegment? = some last ∧ last.ident.text = "Result" ∧
    last.args.types = [value, error] ∧ SelfLike d value

/-- What a function returns besides the value: the type of its error, if it can fail. -/
inductive Returns (d : TypeDecl) (m : MakerDecl) : Option Ty → Prop
  | unstated (h : m.returns = none) : Returns d m none
  | itself {text : String} {t : Ty} (htext : m.returns = some text)
      (hread : Ty.parse? text = some t) (hself : SelfLike d t) : Returns d m none
  | result {text : String} {t error : Ty} (htext : m.returns = some text)
      (hread : Ty.parse? text = some t) (hresult : ResultLike d t error) :
      Returns d m (some error)

/-- Why the result of a function is not of the declared type. -/
inductive ReturnFault (d : TypeDecl) (m : MakerDecl) : Cause → Prop
  | unreadable {text : String} (htext : m.returns = some text) (hread : Ty.parse? text = none) :
      ReturnFault d m (.invalidType text)
  | foreign {text : String} {t : Ty} (htext : m.returns = some text)
      (hread : Ty.parse? text = some t) (hself : ¬ SelfLike d t)
      (hresult : ∀ error, ¬ ResultLike d t error) :
      ReturnFault d m (.invalidFactory m.name (.foreignResult text))

/-- Why a declared factory is none. -/
inductive FactoryDefect (d : TypeDecl) (m : MakerDecl) : Cause → Prop
  | receiver (h : m.isStatic = false) : FactoryDefect d m (.invalidFactory m.name .takesReceiver)
  | returns {cause : Cause} (hstatic : m.isStatic = true) (h : ReturnFault d m cause) :
      FactoryDefect d m cause

theorem namesSelf_iff : namesSelf d t = true ↔ SelfLike d t := by
  cases t with
  | path path =>
    rw [namesSelf, Option.any_eq_true]
    simp [SelfLike]
  | _ => simp [namesSelf, SelfLike]

/-- The two forms exclude each other, since the first has no arguments. -/
theorem ResultLike.not_selfLike (h : ResultLike d t error) : ¬ SelfLike d t := by
  obtain ⟨last, value, hlast, -, htypes, -⟩ := h
  rintro ⟨path, last', rfl, hlast', hempty, -⟩
  obtain rfl : last = last' := Option.some.inj (hlast.symm.trans hlast')
  cases hargs : last.args with
  | absent => simp [hargs, Arguments.types] at htypes
  | angled turbofish args trailing =>
    rw [hargs, Arguments.isEmpty, List.isEmpty_iff] at hempty
    simp [hargs, hempty, Arguments.types] at htypes
  | signature tokens => simp [hargs, Arguments.types] at htypes

theorem resultLike_iff : ResultLike d t error ↔
    ∃ value, resultArguments? t = some [value, error] ∧ namesSelf d value = true := by
  simp only [ResultLike, resultArguments?, namesSelf_iff]
  cases t.lastSegment? with
  | none => simp
  | some last => by_cases hname : last.ident.text = "Result" <;> simp [hname]

theorem failureOf?_eq_some_iff : failureOf? d t = some failure ↔
    (SelfLike d t ∧ failure = none) ∨ ∃ error, ResultLike d t error ∧ failure = some error := by
  unfold failureOf?
  -- a type that is itself the declared one is asked for first, and is no result of it
  by_cases hself : namesSelf d t = true
  · have hself' := namesSelf_iff.1 hself
    have hnone : ∀ error, ¬ ResultLike d t error := fun error h => h.not_selfLike hself'
    simp [hself, hself', hnone, eq_comm]
  · have hself' : ¬ SelfLike d t := fun h => hself (namesSelf_iff.2 h)
    simp only [hself, hself', resultLike_iff, Bool.false_eq_true, if_false, false_and, false_or]
    split
    · next value error hargs =>
      simp only [hargs, Option.some.injEq, List.cons.injEq, and_true]
      by_cases hvalue : namesSelf d value = true <;> grind
    · next hargs => grind

theorem failureOf?_eq_none_iff :
    failureOf? d t = none ↔ ¬ SelfLike d t ∧ ∀ error, ¬ ResultLike d t error := by
  rw [Option.eq_none_iff_forall_ne_some]
  constructor
  · intro h
    constructor
    · exact fun hself => h none (failureOf?_eq_some_iff.2 (.inl ⟨hself, rfl⟩))
    · intro error hresult
      exact h (some error) (failureOf?_eq_some_iff.2 (.inr ⟨error, hresult, rfl⟩))
  · rintro ⟨hself, hresult⟩ failure hfailure
    obtain ⟨h, -⟩ | ⟨error, h, -⟩ := failureOf?_eq_some_iff.1 hfailure
    · exact hself h
    · exact hresult error h

theorem failureType_eq_ok_iff : failureType d m = .ok failure ↔ Returns d m failure := by
  unfold failureType
  cases htext : m.returns with
  | none =>
    simp only [Except.ok.injEq]
    constructor
    · rintro rfl
      exact .unstated htext
    · intro h
      cases h with
      | unstated => rfl
      | itself h | result h => simp [htext] at h
  | some text =>
    simp only [bind_eq_ok_iff, readType, readOr_eq_ok_iff]
    constructor
    · rintro ⟨t, hread, h⟩
      split at h
      · next hfailure =>
        cases h
        obtain ⟨hself, rfl⟩ | ⟨error, hresult, rfl⟩ := failureOf?_eq_some_iff.1 hfailure
        · exact .itself htext hread hself
        · exact .result htext hread hresult
      · cases h
    · intro h
      cases h with
      | unstated h => simp [htext] at h
      | itself h hread hself =>
        cases htext.symm.trans h
        exact ⟨_, hread, by rw [failureOf?_eq_some_iff.2 (.inl ⟨hself, rfl⟩)]; rfl⟩
      | result h hread hresult =>
        cases htext.symm.trans h
        exact ⟨_, hread, by rw [failureOf?_eq_some_iff.2 (.inr ⟨_, hresult, rfl⟩)]; rfl⟩

theorem failureType_eq_error_iff :
    failureType d m = .error f ↔ ∃ cause, ReturnFault d m cause ∧ f = fault d cause := by
  unfold failureType
  cases htext : m.returns with
  | none =>
    simp only [reduceCtorEq, false_iff, not_exists, not_and]
    rintro cause (⟨h, -⟩ | ⟨h, -⟩) <;> simp [htext] at h
  | some text =>
    simp only [bind_eq_error_iff, readType, readOr_eq_error_iff, readOr_eq_ok_iff]
    constructor
    · rintro (⟨hread, rfl⟩ | ⟨t, hread, h⟩)
      · exact ⟨_, .unreadable htext hread, rfl⟩
      · split at h
        · cases h
        · next hnone =>
          cases h
          obtain ⟨hself, hresult⟩ := failureOf?_eq_none_iff.1 hnone
          exact ⟨_, .foreign htext hread hself hresult, rfl⟩
    · rintro ⟨cause, h, rfl⟩
      cases h with
      | unreadable h hread =>
        cases htext.symm.trans h
        exact .inl ⟨hread, rfl⟩
      | @foreign _ t h hread hself hresult =>
        cases htext.symm.trans h
        have hnone : failureOf? d t = none := failureOf?_eq_none_iff.2 ⟨hself, hresult⟩
        exact .inr ⟨t, hread, by rw [hnone]⟩

theorem checkFactory_eq_error_iff :
    checkFactory d m = .error f ↔ ∃ cause, FactoryDefect d m cause ∧ f = fault d cause := by
  unfold checkFactory
  cases hstatic : m.isStatic with
  | false =>
    simp only [Bool.false_eq_true, if_false, Except.error.injEq]
    constructor
    · rintro rfl
      exact ⟨_, .receiver hstatic, rfl⟩
    · rintro ⟨cause, h, rfl⟩
      cases h with
      | receiver => rfl
      | returns h => simp [hstatic] at h
  | true =>
    simp only [if_true, bind_eq_error_iff, failureType_eq_error_iff]
    constructor
    · rintro (⟨cause, h, rfl⟩ | ⟨-, -, h⟩)
      · exact ⟨cause, .returns hstatic h, rfl⟩
      · cases h
    · rintro ⟨cause, h, rfl⟩
      cases h with
      | receiver h => simp [hstatic] at h
      | returns _ h => exact .inl ⟨cause, h, rfl⟩

theorem checkFactory_eq_ok_iff :
    checkFactory d m = .ok () ↔ ∀ cause, ¬ FactoryDefect d m cause := by
  have herror : (∃ f, checkFactory d m = .error f) ↔ ∃ cause, FactoryDefect d m cause := by
    simp only [checkFactory_eq_error_iff]
    constructor
    · rintro ⟨f, cause, h, -⟩
      exact ⟨cause, h⟩
    · rintro ⟨cause, h⟩
      exact ⟨_, cause, h, rfl⟩
  rw [← not_exists, ← herror]
  cases checkFactory d m <;> simp

end CodecForge.Plan
