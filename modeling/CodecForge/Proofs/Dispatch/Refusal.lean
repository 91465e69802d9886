import CodecForge.Proofs.Dispatch.RoundTrip

/-!
# Values that a registry refuses to write

What a refusal leaves in the output.  A value without a codec leaves nothing.  The discriminator is
written before the codec is given its dependency, so a dependency of another type leaves the bytes
of the discriminator.  A codec that is found by the type of a value encodes that type, so in a
registry that is made by registrations there is no other refusal.
-/

namespace CodecForge.Dispatch

open CodecForge.Wire

/-! ### Refusals -/

/-- The registry itself refuses to write the value, with the given failure. -/
inductive Refusal (r : Registry) (base : String) (v : Typed) (dependency : Option Typed) :
    CodecError → Prop
  /-- There is no codec for the type of the value. -/
  | unregistered (hnone : r.entryForType? base v.type = none) :
      Refusal r base v dependency (.unregisteredType base)
  /-- The codec is one for another type. -/
  | otherType {e : Entry} (he : r.entryForType? base v.type = some e)
      (hv : v.type ≠ e.codec.encoded) :
      Refusal r base v dependency (.typeMismatch e.codec.encoded "a different runtime type")
  /-- The dependency is of another type than that of the codec. -/
  | otherDependency {e : Entry} {expected : String} {d : Typed}
      (he : r.entryForType? base v.type = some e) (hv : v.type = e.codec.encoded)
      (hexpected : e.codec.dependency = some expected) (hd : dependency = some d)
      (hne : d.type ≠ expected) :
      Refusal r base v dependency (.dependencyMismatch e.codec.typeName expected)

section Entry

variable {e : Entry} {dependency : Option Typed} {error : CodecError}

theorem dependencyOf_eq_error_iff {c : ObjectCodec} :
    c.dependencyOf dependency = .error error ↔
      ∃ expected d, c.dependency = some expected ∧ dependency = some d ∧ d.type ≠ expected ∧
        error = .dependencyMismatch c.typeName expected := by
  unfold ObjectCodec.dependencyOf
  split
  · next hnone => simp [hnone]
  · next hsome => simp [hsome]
  · next expected d hsome =>
    by_cases htype : d.type = expected
    · simp [hsome, htype]
    · have hne : expected ≠ d.type := Ne.symm htype
      simp [hsome, htype, hne, eq_comm]

theorem Entry.encode_apply_error (hd : e.codec.dependencyOf dependency = .error error) (v : Value)
    (p : Bytes) : e.encode ⟨e.codec.encoded, v⟩ dependency p = .error error p := by
  simp only [Entry.encode, ne_eq, not_true_eq_false, if_false, hd, ofExcept]
  rfl

end Entry

namespace Registry

section Found

variable {r : Registry} {base type : String} {e : Entry} {v : Typed}

/-- An entry that is found by a type has a codec of the type, with the discriminator of its name. -/
theorem Coherent.entry_of_type (hr : r.Coherent) (he : r.entryForType? base type = some e) :
    e.codec.encoded = type ∧ e.tag = discriminator e.codec.typeName := by
  obtain ⟨entries, ht⟩ := hr.tables base
  obtain ⟨hmem, htype⟩ := (ht.lookup_type type e).1 he
  exact ⟨htype, ht.tags e hmem⟩

theorem encode_of_not_found (hnone : r.entryForType? base v.type = none)
    (dependency : Option Typed) (p : Bytes) :
    r.encode base v dependency p = .error (.unregisteredType base) p := by
  simp only [encode, hnone]
  rfl

/-- A value is written as the discriminator of its codec, with what the entry writes behind it. -/
theorem Coherent.encode_of_found (hr : r.Coherent) (he : r.entryForType? base v.type = some e)
    (dependency : Option Typed) (p : Bytes) :
    r.encode base v dependency p =
      e.encode ⟨e.codec.encoded, v.value⟩ dependency
        (p ++ tagBytes (discriminator e.codec.typeName)) := by
  obtain ⟨htype, htag⟩ := hr.entry_of_type he
  simp only [encode, he]
  rw [bind_eq_of_ok (writeTag_apply e.tag p), htag, htype]

end Found

/-- In the registry after any registrations, a refusal for want of a codec leaves the output as it
was, and one for a dependency of another type leaves the discriminator of the codec behind it; there
is no other.  A value that is not refused is left to its codec behind the discriminator. -/
theorem refusal_leaves (calls : List Registration) (base : String) (v : Typed)
    (dependency : Option Typed) (p : Bytes) :
    (∀ error, Refusal (run calls) base v dependency error →
      (error = .unregisteredType base ∧
        (run calls).encode base v dependency p = .error error p) ∨
      ∃ e expected, (run calls).entryForType? base v.type = some e ∧
        error = .dependencyMismatch e.codec.typeName expected ∧
        (run calls).encode base v dependency p =
          .error error (p ++ tagBytes (discriminator e.codec.typeName))) ∧
    ((∀ error, ¬ Refusal (run calls) base v dependency error) →
      ∃ e d, (run calls).entryForType? base v.type = some e ∧
        e.codec.dependencyOf dependency = .ok d ∧
        (run calls).encode base v dependency p =
          e.codec.encode v.value d (p ++ tagBytes (discriminator e.codec.typeName))) := by
  have hr := coherent_run calls
  constructor
  · intro error hrefusal
    cases hrefusal with
    | unregistered hnone => exact .inl ⟨rfl, encode_of_not_found hnone dependency p⟩
    | otherType he hv => exact absurd (hr.entry_of_type he).1.symm hv
    | @otherDependency e expected d he hv hexpected hd hne =>
      have herror : e.codec.dependencyOf dependency =
          .error (.dependencyMismatch e.codec.typeName expected) :=
        dependencyOf_eq_error_iff.2 ⟨expected, d, hexpected, hd, hne, rfl⟩
      refine .inr ⟨e, expected, he, rfl, ?_⟩
      rw [hr.encode_of_found he]
      exact Entry.encode_apply_error herror _ _
  · intro haccepted
    cases he : (run calls).entryForType? base v.type with
    | none => exact absurd (.unregistered he) (haccepted _)
    | some e =>
      cases hd : e.codec.dependencyOf dependency with
      | error error =>
        obtain ⟨expected, d, hexpected, hsupplied, hne, rfl⟩ := dependencyOf_eq_error_iff.1 hd
        have hv : v.type = e.codec.encoded := (hr.entry_of_type he).1.symm
        exact absurd (.otherDependency he hv hexpected hsupplied hne) (haccepted _)
      | ok d =>
        refine ⟨e, d, rfl, hd, ?_⟩
        rw [hr.encode_of_found he]
        exact Entry.encode_apply hd _ _

def gizmo : Registration where
  base := "Gadget"
  codec := { (oneByte "Gadget" "Gizmo").codec with dependency := some "Units" }
  upcast := (⟨"Gizmo", ·⟩)

theorem entryForType?_gizmo :
    (run [gizmo]).entryForType? "Gadget" "Gizmo" = some gizmo.entry := rfl

theorem not_refusal_gizmo (v : Value) (error : CodecError) :
    ¬ Refusal (run [gizmo]) "Gadget" ⟨"Gizmo", v⟩ (some ⟨"Units", .unit⟩) error := by
  intro hrefusal
  cases hrefusal with
  | unregistered hnone =>
    rw [entryForType?_gizmo] at hnone
    cases hnone
  | otherType he hv =>
    rw [entryForType?_gizmo, Option.some.injEq] at he
    exact hv (he ▸ rfl)
  | otherDependency he hv hexpected hd hne =>
    rw [entryForType?_gizmo, Option.some.injEq] at he
    subst he
    cases hexpected
    cases hd
    exact hne rfl

/-- A value without a codec, a dependency of another type, and a value that is not refused. -/
theorem refusal_leaves_gizmo :
    (run [gizmo]).encode "Gadget" ⟨"Widget", .integer 5⟩ none [9] =
      .error (.unregisteredType "Gadget") [9] ∧
    (run [gizmo]).encode "Gadget" ⟨"Gizmo", .integer 5⟩ (some ⟨"Ctx", .unit⟩) [9] =
      .error (.dependencyMismatch "Gizmo" "Units") ([9] ++ tagBytes (discriminator "Gizmo")) ∧
    (run [gizmo]).encode "Gadget" ⟨"Gizmo", .integer 5⟩ (some ⟨"Units", .unit⟩) [9] =
      .ok () ([9] ++ tagBytes (discriminator "Gizmo") ++ [5]) := by
  refine ⟨?_, ?_, ?_⟩
  · obtain ⟨hleaves, -⟩ := refusal_leaves [gizmo] "Gadget" ⟨"Widget", .integer 5⟩ none [9]
    rcases hleaves _ (.unregistered rfl) with ⟨-, hencode⟩ | ⟨_, _, -, herror, -⟩
    · exact hencode
    · cases herror
  · obtain ⟨hleaves, -⟩ :=
      refusal_leaves [gizmo] "Gadget" ⟨"Gizmo", .integer 5⟩ (some ⟨"Ctx", .unit⟩) [9]
    rcases hleaves _ (.otherDependency entryForType?_gizmo rfl rfl rfl (by decide)) with
      ⟨herror, -⟩ | ⟨e, _, he, -, hencode⟩
    · cases herror
    · rw [entryForType?_gizmo, Option.some.injEq] at he
      subst he
      exact hencode
  · obtain ⟨-, haccepts⟩ :=
      refusal_leaves [gizmo] "Gadget" ⟨"Gizmo", .integer 5⟩ (some ⟨"Units", .unit⟩) [9]
    obtain ⟨e, d, he, hd, hencode⟩ := haccepts (not_refusal_gizmo _)
    rw [entryForType?_gizmo, Option.some.injEq] at he
    subst he
    cases hd
    exact hencode

/-- A dependency of another type does not leave the output as it was. -/
theorem refusal_not_untouched :
    ¬ ∀ (calls : List Registration) (base : String) (v : Typed) (dependency : Option Typed)
        (p : Bytes) (error : CodecError),
      Refusal (run calls) base v dependency error →
        (run calls).encode base v dependency p = .error error p := by
  intro h
  have huntouched := h [gizmo] "Gadget" ⟨"Gizmo", .integer 5⟩ (some ⟨"Ctx", .unit⟩) [] _
    (.otherDependency entryForType?_gizmo rfl rfl rfl (by decide))
  cases huntouched

end Registry

end CodecForge.Dispatch
