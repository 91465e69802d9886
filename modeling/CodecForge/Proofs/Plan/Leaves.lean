import CodecForge.Proofs.Eval.Inline

/-!
# Kinds by the leaves of types

A type is a tree of tuples, arrays and brackets over its leaves.  It has a kind exactly if each of
its leaves is a path or the unit; brackets around a part of it, at any depth, make no difference;
and of the arrays a codec writes by itself those of the two scalar words, and no others.
-/

namespace CodecForge.Plan

open CodecForge.Source

/-! ### Leaves -/

mutual

/-- The parts of a type that are no tuples, arrays or brackets, from left to right.  The unit is a
leaf. -/
def leaves : Ty → List Ty
  | .path p => [.path p]
  | .qualified self trait rest => [.qualified self trait rest]
  | .tuple [] trailing => [.tuple [] trailing]
  | .tuple (t :: rest) _ => leaves t ++ leavesOfAll rest
  | .array elem _ => leaves elem
  | .paren inner => leaves inner
  | .invisible inner => leaves inner
  | .other form tokens => [.other form tokens]

/-- The leaves of each type of a list. -/
def leavesOfAll : List Ty → List Ty
  | [] => []
  | t :: rest => leaves t ++ leavesOfAll rest

end

/-- The type is a path or the unit. -/
def isPathOrUnit : Ty → Bool
  | .path _ => true
  | .qualified _ _ _ => true
  | .tuple [] _ => true
  | _ => false

/-- The first of the types that is neither a path nor the unit. -/
def firstStranger? (ts : List Ty) : Option Ty := ts.find? fun l => !isPathOrUnit l

/-- What is refused is refused for the leaf, and nothing is refused if there is none. -/
inductive DecidedBy {α : Type} : Except Unsupported α → Option Ty → Prop
  | kind (a : α) : DecidedBy (.ok a) none
  | stranger (form : TyForm) (tokens : Tokens) :
      DecidedBy (.error (.ofForm form)) (some (.other form tokens))

section Leaves

variable {α β : Type} {x : Except Unsupported α} {y : Except Unsupported β} {l l' : Option Ty}

theorem DecidedBy.map (h : DecidedBy x l) (f : α → β) : DecidedBy (do return f (← x)) l := by
  cases h with
  | kind a => exact .kind (f a)
  | stranger form tokens => exact .stranger form tokens

/-- The first of two checks that is refused decides. -/
theorem DecidedBy.andThen (h : DecidedBy x l) (h' : DecidedBy y l') :
    DecidedBy (do let _ ← x; y) (l.or l') := by
  cases h with
  | kind a => exact h'
  | stranger form tokens => exact .stranger form tokens

theorem firstStranger?_append (ts us : List Ty) :
    firstStranger? (ts ++ us) = (firstStranger? ts).or (firstStranger? us) := List.find?_append

mutual

theorem decidedBy_leaves : ∀ t : Ty, DecidedBy (Kind.of t) (firstStranger? (leaves t))
  | .path _ => .kind _
  | .qualified _ _ _ => .kind _
  | .tuple [] _ => .kind _
  | .tuple (t :: rest) trailing => by
    rw [Kind.of, Kind.check, leaves, firstStranger?_append]
    have hparts := (decidedBy_leaves t).andThen (decidedBy_leavesOfAll rest)
    exact hparts.map fun _ => Kind.declared
  | .array elem len => by
    rw [Kind.of, leaves]
    exact (decidedBy_leaves elem).map fun kind => Kind.array kind len
  | .paren inner => by
    rw [Kind.of, leaves]
    exact decidedBy_leaves inner
  | .invisible inner => by
    rw [Kind.of, leaves]
    exact decidedBy_leaves inner
  | .other form tokens => .stranger form tokens

theorem decidedBy_leavesOfAll :
    ∀ ts : List Ty, DecidedBy (Kind.check ts) (firstStranger? (leavesOfAll ts))
  | [] => .kind _
  | t :: rest => by
    rw [Kind.check, leavesOfAll, firstStranger?_append]
    exact (decidedBy_leaves t).andThen (decidedBy_leavesOfAll rest)

end

theorem DecidedBy.exists_error_iff (h : DecidedBy x l) : (∃ e, x = .error e) ↔ l.isSome := by
  cases h <;> simp

theorem DecidedBy.eq_error_iff (h : DecidedBy x l) {reason : Unsupported} :
    x = .error reason ↔ ∃ form tokens, l = some (.other form tokens) ∧ reason = .ofForm form := by
  cases h with
  | kind a => simp
  | stranger form tokens => simp [eq_comm]

end Leaves

/-! ### Brackets -/

/-- A hole for a type in the arguments of a path segment: that of an argument, or one in the
spelling of an argument or of a parameter list. -/
inductive ArgumentsHole : (Ty → Arguments Ty) → Prop
  | argument (turbofish : Bool) (before after : List (GenericArg Ty)) (trailing : Bool) :
      ArgumentsHole fun t => .angled turbofish (before ++ .type t :: after) trailing
  | spelled (turbofish : Bool) (before after : List (GenericArg Ty)) (trailing : Bool)
      (write : Tokens → Tokens) :
      ArgumentsHole fun t => .angled turbofish (before ++ .other (write t.tokens) :: after) trailing
  | signature (write : Tokens → Tokens) : ArgumentsHole fun t => .signature (write t.tokens)

/-- A hole for a type in the segments of a path. -/
inductive SegmentsHole : (Ty → List (Segment Ty)) → Prop
  | arguments {A : Ty → Arguments Ty} (hA : ArgumentsHole A) (before after : List (Segment Ty))
      (ident : Ident) : SegmentsHole fun t => before ++ ⟨ident, A t⟩ :: after

/-- A hole for a type in a type, which may be of a form that is kept as its spelling. -/
inductive Hole : (Ty → Ty) → Prop
  | paren : Hole .paren
  | invisible : Hole .invisible
  | tuple (before after : List Ty) (trailing : Bool) :
      Hole fun t => .tuple (before ++ t :: after) trailing
  | array (len : Expr) : Hole fun t => .array t len
  | path {S : Ty → List (Segment Ty)} (hS : SegmentsHole S) (rooted : Bool) :
      Hole fun t => .path ⟨rooted, S t⟩
  | self (trait : Option Path) (rest : List (Segment Ty)) : Hole fun t => .qualified t trait rest
  | trait {S : Ty → List (Segment Ty)} (hS : SegmentsHole S) (self : Ty) (rooted : Bool)
      (rest : List (Segment Ty)) : Hole fun t => .qualified self (some ⟨rooted, S t⟩) rest
  | rest {S : Ty → List (Segment Ty)} (hS : SegmentsHole S) (self : Ty) (trait : Option Path) :
      Hole fun t => .qualified self trait (S t)
  | spelled (form : TyForm) (write : Tokens → Tokens) : Hole fun t => .other form (write t.tokens)

/-- A hole for a type in a type, at any depth. -/
inductive Context : (Ty → Ty) → Prop
  | here : Context id
  | within {P C : Ty → Ty} (hP : Hole P) (hC : Context C) : Context fun t => P (C t)

section Brackets

variable {t u : Ty}

theorem check_append_cons (h : Kind.of t = Kind.of u) (before after : List Ty) :
    Kind.check (before ++ t :: after) = Kind.check (before ++ u :: after) := by
  induction before with
  | nil => rw [List.nil_append, List.nil_append, Kind.check, Kind.check, h]
  | cons b before ih => rw [List.cons_append, List.cons_append, Kind.check, Kind.check, ih]

/-- Of the arguments of a path it matters only whether there are any. -/
theorem ofPath_append_cons {args args' : Arguments Ty} (h : args.isEmpty = args'.isEmpty)
    (rooted : Bool) (before after : List (Segment Ty)) (ident : Ident) :
    Kind.ofPath ⟨rooted, before ++ ⟨ident, args⟩ :: after⟩ =
      Kind.ofPath ⟨rooted, before ++ ⟨ident, args'⟩ :: after⟩ := by
  have hlength : (before ++ ⟨ident, args⟩ :: after).length =
      (before ++ ⟨ident, args'⟩ :: after).length := by
    rw [List.length_append, List.length_append, List.length_cons, List.length_cons]
  cases after with
  | nil =>
    simp only [Kind.ofPath, hlength, List.getLast?_append, List.getLast?_singleton, Option.some_or,
      h]
  | cons a after =>
    simp only [Kind.ofPath, hlength, List.getLast?_append, List.getLast?_cons_cons]

theorem ArgumentsHole.isEmpty {A : Ty → Arguments Ty} (hA : ArgumentsHole A) :
    (A t).isEmpty = false := by
  cases hA <;> simp [Arguments.isEmpty]

/-- A type is given its kind by the kind of a part of it. -/
theorem Hole.kind_congr {P : Ty → Ty} (hP : Hole P) (h : Kind.of t = Kind.of u) :
    Kind.of (P t) = Kind.of (P u) := by
  cases hP with
  | paren => rwa [Kind.of, Kind.of]
  | invisible => rwa [Kind.of, Kind.of]
  | tuple before after trailing =>
    rw [Kind.of, Kind.of, check_append_cons h]
    simp
  | array len => rw [Kind.of, Kind.of, h]
  | path hS rooted =>
    obtain ⟨hA, before, after, ident⟩ := hS
    rw [Kind.of, Kind.of, ofPath_append_cons (hA.isEmpty.trans hA.isEmpty.symm)]
  | self trait rest => rw [Kind.of, Kind.of]
  | trait hS self rooted rest => rw [Kind.of, Kind.of]
  | rest hS self trait => rw [Kind.of, Kind.of]
  | spelled form write => rw [Kind.of, Kind.of]

theorem Context.kind_congr {C : Ty → Ty} (hC : Context C) (h : Kind.of t = Kind.of u) :
    Kind.of (C t) = Kind.of (C u) := by
  induction hC with
  | here => exact h
  | within hP _ ih => exact hP.kind_congr ih

/-- The type without the brackets around it. -/
def unbracketed : Ty → Ty
  | .paren inner => unbracketed inner
  | .invisible inner => unbracketed inner
  | t => t

theorem kind_unbracketed (t : Ty) : Kind.of (unbracketed t) = Kind.of t := by
  fun_induction unbracketed t with
  | case1 inner ih => rw [ih, Kind.of]
  | case2 inner ih => rw [ih, Kind.of]
  | case3 t => rfl

end Brackets

/-! ### Arrays of scalars -/

section Arrays

variable {t : Ty} {s : Scalar} {len : Expr} {kind : Kind}

/-- Only an array has the kind of one. -/
theorem exists_of_kind_array (h : Kind.of t = .ok (.array kind len)) :
    ∃ elem, unbracketed t = .array elem len ∧ Kind.of elem = .ok kind := by
  refine Eval.kind_induction
    (motive := fun t => ∃ elem, unbracketed t = .array elem len ∧ Kind.of elem = .ok kind)
    (by simp) (by simp) ?_ ?_ (fun _ => id) (fun _ => id) t h
  · rintro p s hword ⟨⟩
  · rintro elem len' elemKind helem ⟨⟩
    exact ⟨elem, rfl, helem⟩

theorem inlineArray?_eq_some_iff :
    kind.inlineArray? = some (s, len) ↔ kind = .array (.scalar s) len := by
  unfold Kind.inlineArray?
  split <;> simp_all

theorem exists_inlineArray_iff :
    (∃ kind, Kind.of t = .ok kind ∧ kind.inlineArray? = some (s, len)) ↔
      ∃ elem, unbracketed t = .array elem len ∧ Eval.SpellsScalar elem s := by
  constructor
  · rintro ⟨kind, hkind, hinline⟩
    rw [inlineArray?_eq_some_iff.1 hinline] at hkind
    obtain ⟨elem, harray, helem⟩ := exists_of_kind_array hkind
    exact ⟨elem, harray, Eval.spellsScalar_of_kind elem helem⟩
  · rintro ⟨elem, harray, hword⟩
    refine ⟨.array (.scalar s) len, ?_, rfl⟩
    rw [← kind_unbracketed, harray, Kind.of, Eval.kind_of_spellsScalar hword]
    rfl

/-- The type is no single word: it is an array, a tuple, or a path of more names or of none. -/
inductive NoWord : Ty → Prop
  | array (elem : Ty) (len : Expr) : NoWord (.array elem len)
  | tuple (elems : List Ty) (trailing : Bool) : NoWord (.tuple elems trailing)
  | path {p : Path} (h : p.segments.length ≠ 1) : NoWord (.path p)
  | qualified (self : Ty) (trait : Option Path) (rest : List (Segment Ty)) :
      NoWord (.qualified self trait rest)

theorem NoWord.not_spellsScalar (h : NoWord (unbracketed t)) : ¬ Eval.SpellsScalar t s := by
  intro hword
  induction hword with
  | word rooted s hargs =>
    cases h with
    | path hlength => exact hlength rfl
  | paren _ ih => exact ih h
  | invisible _ ih => exact ih h

end Arrays

/-- A type has no kind exactly if one of its leaves is neither a path nor the unit, and the first
such leaf says why.  Brackets around a part of a type, at any depth, make no difference to the kind.
An array is written by the codec itself exactly if its elements are one of the scalar words, but for
brackets, and so not if they are arrays, tuples or paths of several names. -/
theorem kind_by_leaves (t : Ty) :
    ((∃ reason, Kind.of t = .error reason) ↔ ∃ l ∈ leaves t, isPathOrUnit l = false) ∧
    (∀ reason, Kind.of t = .error reason ↔ ∃ form tokens,
      firstStranger? (leaves t) = some (.other form tokens) ∧ reason = .ofForm form) ∧
    (∀ C, Context C → Kind.of (C (.paren t)) = Kind.of (C t) ∧
      Kind.of (C (.invisible t)) = Kind.of (C t)) ∧
    (∀ s len, (∃ kind, Kind.of t = .ok kind ∧ kind.inlineArray? = some (s, len)) ↔
      ∃ elem, unbracketed t = .array elem len ∧ Eval.SpellsScalar elem s) ∧
    ∀ elem len kind, unbracketed t = .array elem len → NoWord (unbracketed elem) →
      Kind.of t = .ok kind → kind.inlineArray? = none := by
  have hleaves := decidedBy_leaves t
  refine ⟨?_, fun reason => hleaves.eq_error_iff, fun C hC => ⟨?_, ?_⟩,
    fun s len => exists_inlineArray_iff, fun elem len kind harray helem hkind => ?_⟩
  · rw [hleaves.exists_error_iff, firstStranger?, List.find?_isSome]
    simp
  · exact hC.kind_congr (by rw [Kind.of])
  · exact hC.kind_congr (by rw [Kind.of])
  · cases hinline : kind.inlineArray? with
    | none => rfl
    | some x =>
      obtain ⟨elem', harray', hword⟩ := exists_inlineArray_iff.1 ⟨kind, hkind, hinline⟩
      obtain ⟨rfl, -⟩ := Ty.array.inj (harray.symm.trans harray')
      exact absurd hword helem.not_spellsScalar

/-- A reference in an array, in brackets, comes before a function. -/
example (len : Expr) (name signature : Tokens) :
    Kind.of (.tuple [.array (.paren (.other .reference name)) len, .other .function signature]
      false) = .error .reference := rfl

end CodecForge.Plan
