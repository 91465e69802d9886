import Mathlib.Data.List.Induction
import CodecForge.Proofs.Dispatch.Tables
import CodecForge.Proofs.Wire.Streams

/-!
# Runs of registrations

`run` is the registry after registrations in order, of which some may be refused.  Whatever they
are, it is consistent, and a later registry extends an earlier one: what is found once is found from
then on, so that it is written and read in the same way.
-/

namespace CodecForge.Dispatch

open CodecForge.Wire

/-- What a registration is given. -/
structure Registration where
  base : String
  codec : ObjectCodec
  upcast : Value → Typed

/-- The entry of the codec of a registration. -/
def Registration.entry (g : Registration) : Entry :=
  ⟨discriminator g.codec.typeName, g.base, g.codec, g.upcast⟩

namespace Registry

/-- The registry after a registration, and the failure if it is refused. -/
def perform (r : Registry) (g : Registration) : Registry × Option CodecError :=
  r.register g.base g.codec g.upcast

/-- The registry after registrations, beginning with the empty one. -/
def run (calls : List Registration) : Registry := calls.foldl (fun r g => (r.perform g).1) empty

theorem run_concat (calls : List Registration) (g : Registration) :
    run (calls ++ [g]) = ((run calls).perform g).1 := by
  simp only [run, List.foldl_append, List.foldl_cons, List.foldl_nil]

theorem coherent_run (calls : List Registration) : (run calls).Coherent := by
  unfold run
  refine List.foldlRecOn calls _ (motive := Coherent) coherent_empty fun r hr g _ => ?_
  exact hr.register g.base g.codec g.upcast

/-! ### Consistency -/

/-- Both tables of every base hold the same entries: an entry is found by its own discriminator,
which is that of its name, and by one type. -/
structure Consistent (r : Registry) : Prop where
  sameEntries : ∀ base e,
    (∃ type, r.entryForType? base type = some e) ↔ ∃ tag, r.entryForTag? base tag = some e
  ownTag : ∀ base tag e, r.entryForTag? base tag = some e →
    tag = e.tag ∧ e.tag = discriminator e.codec.typeName
  oneType : ∀ base tag e, r.entryForTag? base tag = some e →
    ∃ type, ∀ type', r.entryForType? base type' = some e ↔ type' = type
  distinctTypes : ∀ base, ((r.table base).byType.map Prod.fst).Nodup
  distinctTags : ∀ base, ((r.table base).byTag.map Prod.fst).Nodup

theorem Coherent.consistent {r : Registry} (hr : r.Coherent) : r.Consistent := by
  constructor
  · intro base e
    obtain ⟨entries, ht⟩ := hr.tables base
    simp only [entryForType?, entryForTag?, ht.lookup_type, ht.lookup_tag, exists_and_left,
      exists_eq', and_true]
  · intro base tag e he
    obtain ⟨entries, ht⟩ := hr.tables base
    obtain ⟨hmem, rfl⟩ := (ht.lookup_tag tag e).1 he
    exact ⟨rfl, ht.tags e hmem⟩
  · intro base tag e he
    obtain ⟨entries, ht⟩ := hr.tables base
    obtain ⟨hmem, -⟩ := (ht.lookup_tag tag e).1 he
    refine ⟨e.codec.encoded, fun type' => ?_⟩
    rw [entryForType?, ht.lookup_type, and_iff_right hmem, eq_comm]
  · intro base
    obtain ⟨entries, ht⟩ := hr.tables base
    exact ht.nodup_types
  · intro base
    obtain ⟨entries, ht⟩ := hr.tables base
    exact ht.nodup_tags

/-! ### Extension -/

/-- Whatever is found in the first registry is found in the second. -/
structure Extends (r r' : Registry) : Prop where
  byType : ∀ base type e, r.entryForType? base type = some e → r'.entryForType? base type = some e
  byTag : ∀ base tag e, r.entryForTag? base tag = some e → r'.entryForTag? base tag = some e

theorem Extends.refl (r : Registry) : r.Extends r := ⟨fun _ _ _ h => h, fun _ _ _ h => h⟩

theorem Extends.trans {r r' r'' : Registry} (h : r.Extends r') (h' : r'.Extends r'') :
    r.Extends r'' :=
  ⟨fun base type e he => h'.byType base type e (h.byType base type e he),
    fun base tag e he => h'.byTag base tag e (h.byTag base tag e he)⟩

theorem Coherent.extends_perform {r : Registry} (hr : r.Coherent) (g : Registration) :
    r.Extends (r.perform g).1 := by
  cases hc : (r.table g.base).conflicts g.codec with
  | true =>
    rw [perform, register_of_conflicts hr hc]
    exact .refl r
  | false =>
    obtain ⟨htype, htag⟩ := BaseTable.conflicts_eq_false_iff.1 hc
    constructor
    · intro base type e he
      rw [perform, entryForType?_register hc, if_neg, he]
      rintro ⟨rfl, rfl⟩
      rw [entryForType?, htype] at he
      cases he
    · intro base tag e he
      rw [perform, entryForTag?_register hc, if_neg, he]
      rintro ⟨rfl, rfl⟩
      rw [entryForTag?, htag] at he
      cases he

theorem extends_run (calls later : List Registration) :
    (run calls).Extends (run (calls ++ later)) := by
  induction later using List.reverseRecOn with
  | nil =>
    rw [List.append_nil]
    exact .refl _
  | append_singleton later g ih =>
    rw [← List.append_assoc, run_concat]
    exact ih.trans ((coherent_run _).extends_perform g)

section Extends

variable {r r' : Registry} (h : r.Extends r') {base : String}

include h

theorem Extends.lookup?_eq {type name : String} (hname : r.lookup? base type = some name) :
    r'.lookup? base type = some name := by
  obtain ⟨e, he, rfl⟩ := Option.map_eq_some_iff.1 hname
  rw [lookup?, h.byType base type e he, Option.map_some]

theorem Extends.encode_eq {v : Typed} (hv : (r.entryForType? base v.type).isSome)
    (dependency : Option Typed) : r'.encode base v dependency = r.encode base v dependency := by
  obtain ⟨e, he⟩ := Option.isSome_iff_exists.1 hv
  simp only [encode, he, h.byType base v.type e he]

theorem Extends.decode_eq {input : Input}
    (htag : ∀ tag i, Reader.bits .w32 input = .ok tag i →
      (r.entryForTag? base (UInt32.ofNat tag)).isSome) (dependency : Option Typed) :
    r'.decode base dependency input = r.decode base dependency input := by
  unfold decode
  cases hbits : Reader.bits .w32 input with
  | error e i => rw [bind_eq_of_error hbits, bind_eq_of_error hbits]
  | ok tag i =>
    obtain ⟨e, he⟩ := Option.isSome_iff_exists.1 (htag tag i hbits)
    rw [bind_eq_of_ok hbits, bind_eq_of_ok hbits]
    simp only [he, h.byTag base _ e he]

end Extends

/-! ### The contract of a registration -/

/-- The type of the codec or its discriminator is present under the base. -/
def Taken (r : Registry) (g : Registration) : Prop :=
  (r.entryForType? g.base g.codec.encoded).isSome ∨
    (r.entryForTag? g.base (discriminator g.codec.typeName)).isSome

theorem taken_iff (r : Registry) (g : Registration) :
    r.Taken g ↔ (r.table g.base).conflicts g.codec = true := by
  simp only [Taken, entryForType?, entryForTag?, BaseTable.conflicts, Bool.or_eq_true]

/-- A registration is refused exactly if the type or the discriminator of its codec is taken, and
then nothing changes; otherwise its entry is found, and under every other key what was found
before. -/
structure Registers (r : Registry) (g : Registration) : Prop where
  refused : (r.perform g).2 = some (.duplicateRegistration g.base g.codec.typeName) ↔ r.Taken g
  unchanged : r.Taken g → (r.perform g).1 = r
  accepted : ¬ r.Taken g → (r.perform g).2 = none
  byType : ¬ r.Taken g → ∀ base type, (r.perform g).1.entryForType? base type =
    if base = g.base ∧ type = g.codec.encoded then some g.entry else r.entryForType? base type
  byTag : ¬ r.Taken g → ∀ base tag, (r.perform g).1.entryForTag? base tag =
    if base = g.base ∧ tag = g.entry.tag then some g.entry else r.entryForTag? base tag

theorem Coherent.registers {r : Registry} (hr : r.Coherent) (g : Registration) :
    r.Registers g := by
  cases hc : (r.table g.base).conflicts g.codec with
  | true =>
    have htaken : r.Taken g := (r.taken_iff g).2 hc
    have hperform : r.perform g = (r, some (.duplicateRegistration g.base g.codec.typeName)) :=
      register_of_conflicts hr hc
    constructor
    · exact iff_of_true (by rw [hperform]) htaken
    · intro _
      rw [hperform]
    all_goals exact fun h => absurd htaken h
  | false =>
    have hfree : ¬ r.Taken g := by simp [taken_iff, hc]
    have hnone : (r.perform g).2 = none := (register_snd_eq_none_iff hr).2 hc
    constructor
    · exact iff_of_false (by simp [hnone]) hfree
    · exact fun h => absurd h hfree
    · exact fun _ => hnone
    · exact fun _ => entryForType?_register hc
    · exact fun _ => entryForTag?_register hc

theorem accepted_iff_not_taken (calls : List Registration) (g : Registration) :
    ((run calls).perform g).2 = none ↔ ¬ (run calls).Taken g := by
  have hregisters := (coherent_run calls).registers g
  refine ⟨fun hnone htaken => ?_, hregisters.accepted⟩
  rw [hregisters.refused.2 htaken] at hnone
  cases hnone

/-! ### Registrations that are accepted -/

/-- The registration is one of the calls, and is not refused in its place. -/
def Accepts (calls : List Registration) (g : Registration) : Prop :=
  ∃ before after, calls = before ++ g :: after ∧ ((run before).perform g).2 = none

theorem not_accepts_nil (g : Registration) : ¬ Accepts [] g := by
  rintro ⟨before, after, h, -⟩
  cases before <;> cases h

theorem accepts_append_singleton_iff {calls : List Registration} {g g' : Registration} :
    Accepts (calls ++ [g]) g' ↔
      Accepts calls g' ∨ g' = g ∧ ¬ (run calls).Taken g := by
  constructor
  · rintro ⟨before, after, h, haccepted⟩
    obtain ⟨rfl, rfl, -⟩ | ⟨after', rfl, -⟩ := append_singleton_eq_append_cons_iff.1 h
    · exact .inr ⟨rfl, (accepted_iff_not_taken calls g).1 haccepted⟩
    · exact .inl ⟨before, after', rfl, haccepted⟩
  · rintro (⟨before, after, rfl, haccepted⟩ | ⟨rfl, hfree⟩)
    · exact ⟨before, after ++ [g], by simp, haccepted⟩
    · exact ⟨calls, [], rfl, (accepted_iff_not_taken calls g').2 hfree⟩

/-- What is found under a key is the entry of the registration that was accepted for it, if an
accepted registration is what sets the entry of a free key. -/
theorem found_run_iff (find : Registry → Option Entry) {HasKey : Registration → Prop}
    [DecidablePred HasKey] (hempty : find empty = none)
    (hfree : ∀ r g, HasKey g → ¬ r.Taken g → find r = none)
    (hstep : ∀ r g, r.Coherent → ¬ r.Taken g →
      find (r.perform g).1 = if HasKey g then some g.entry else find r)
    {calls : List Registration} {e : Entry} :
    find (run calls) = some e ↔ ∃ g, Accepts calls g ∧ HasKey g ∧ g.entry = e := by
  induction calls using List.reverseRecOn generalizing e with
  | nil => simp [run, hempty, not_accepts_nil]
  | append_singleton calls g ih =>
    have hr := coherent_run calls
    simp only [accepts_append_singleton_iff, or_and_right, exists_or, ← ih, run_concat, and_assoc,
      exists_eq_left]
    by_cases htaken : (run calls).Taken g
    · simp [(hr.registers g).unchanged htaken, htaken]
    · rw [hstep _ g hr htaken]
      split
      · next hkey => simp [hfree _ g hkey htaken, hkey, htaken]
      · next hkey => simp [hkey]

theorem entryForType?_run_iff {calls : List Registration} {base type : String} {e : Entry} :
    (run calls).entryForType? base type = some e ↔
      ∃ g, Accepts calls g ∧ (base = g.base ∧ type = g.codec.encoded) ∧ g.entry = e := by
  refine found_run_iff (fun r => r.entryForType? base type) rfl ?_
    fun r g hr htaken => (hr.registers g).byType htaken base type
  rintro r g ⟨rfl, rfl⟩ htaken
  exact Option.not_isSome_iff_eq_none.1 fun h => htaken (.inl h)

theorem entryForTag?_run_iff {calls : List Registration} {base : String} {tag : UInt32}
    {e : Entry} : (run calls).entryForTag? base tag = some e ↔
      ∃ g, Accepts calls g ∧ (base = g.base ∧ tag = g.entry.tag) ∧ g.entry = e := by
  refine found_run_iff (fun r => r.entryForTag? base tag) rfl ?_
    fun r g hr htaken => (hr.registers g).byTag htaken base tag
  rintro r g ⟨rfl, rfl⟩ htaken
  exact Option.not_isSome_iff_eq_none.1 fun h => htaken (.inr h)

/-- After any registrations the tables are consistent, the next one is refused or adds its entry,
and what is then found, written or read stays so whatever is registered later. -/
theorem registrations_conserve (calls : List Registration) :
    (run calls).Consistent ∧ (∀ g, (run calls).Registers g) ∧
    ∀ later base,
      (∀ type name, (run calls).lookup? base type = some name →
        (run (calls ++ later)).lookup? base type = some name) ∧
      (∀ v dependency, ((run calls).entryForType? base v.type).isSome →
        (run (calls ++ later)).encode base v dependency =
          (run calls).encode base v dependency) ∧
      ∀ input dependency,
        (∀ tag i, Reader.bits .w32 input = .ok tag i →
          ((run calls).entryForTag? base (UInt32.ofNat tag)).isSome) →
        (run (calls ++ later)).decode base dependency input =
          (run calls).decode base dependency input := by
  have hr := coherent_run calls
  refine ⟨hr.consistent, hr.registers, fun later base => ?_⟩
  have hextends := extends_run calls later
  exact ⟨fun _ _ => hextends.lookup?_eq, fun _ dependency hv => hextends.encode_eq hv dependency,
    fun _ dependency htag => hextends.decode_eq htag dependency⟩

/-- A lookup that finds nothing may find a codec that is registered later. -/
theorem lookup?_not_conserved :
    ¬ ∀ (calls later : List Registration) (base type : String),
      (run (calls ++ later)).lookup? base type = (run calls).lookup? base type := by
  intro h
  have hsquare := h []
    [⟨"Shape", ⟨"Square", "Square", none, fun _ _ => pure (), fun _ => pure .unit⟩,
      (⟨"Square", ·⟩)⟩]
    "Shape" "Square"
  have hnone : (run []).lookup? "Shape" "Square" = none := rfl
  rw [List.nil_append, hnone] at hsquare
  cases hsquare

end Registry

end CodecForge.Dispatch
