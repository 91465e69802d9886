import CodecForge.Proofs.Dispatch.Refusal

/-!
# Failures of a registry

A failure is one of the registry itself if it comes whatever the codecs do.  In writing these are
the want of a codec and a dependency of another type, and in reading the lack of bytes for a
discriminator as well.  Every other call is that of the codec that is found, with what it gets of
the dependency, so a type mismatch can only be one of a codec.
-/

namespace CodecForge.Dispatch

open CodecForge.Wire

/-! ### Codecs that differ in what they do -/

/-- The codecs have the same names and types; what they do may differ. -/
structure ObjectCodec.Alike (c c' : ObjectCodec) : Prop where
  typeName : c'.typeName = c.typeName
  encoded : c'.encoded = c.encoded
  dependency : c'.dependency = c.dependency

theorem ObjectCodec.Alike.dependencyOf_eq {c c' : ObjectCodec} (h : c.Alike c')
    (dependency : Option Typed) : c'.dependencyOf dependency = c.dependencyOf dependency := by
  simp only [ObjectCodec.dependencyOf, h.dependency, h.typeName]

namespace Registration

/-- The registrations are for the same base, of codecs that differ in what they do. -/
structure Alike (g g' : Registration) : Prop where
  base : g'.base = g.base
  codec : g.codec.Alike g'.codec

/-- The same registration of a codec that never fails. -/
def idle (g : Registration) : Registration :=
  { g with codec := { g.codec with encode := fun _ _ => pure (), decode := fun _ => pure .unit } }

theorem forall₂_alike_self (calls : List Registration) : List.Forall₂ Alike calls calls :=
  List.forall₂_same.2 fun _ _ => ⟨rfl, rfl, rfl, rfl⟩

theorem forall₂_alike_idle (calls : List Registration) :
    List.Forall₂ Alike calls (calls.map idle) :=
  List.forall₂_map_right_iff.2 (List.forall₂_same.2 fun _ _ => ⟨rfl, rfl, rfl, rfl⟩)

end Registration

namespace Registry

/-- The codecs that are found under each key differ in what they do. -/
structure Alike (r r' : Registry) : Prop where
  byType : ∀ base type, Option.Rel (fun e e' : Entry => e.codec.Alike e'.codec)
    (r.entryForType? base type) (r'.entryForType? base type)
  byTag : ∀ base tag, Option.Rel (fun e e' : Entry => e.codec.Alike e'.codec)
    (r.entryForTag? base tag) (r'.entryForTag? base tag)

section Found

variable {x y : Option Entry} {e : Entry}

theorem eq_none_of_rel (h : Option.Rel (fun e e' : Entry => e.codec.Alike e'.codec) x y)
    (hx : x = none) : y = none := by
  cases h with
  | some => cases hx
  | none => rfl

theorem exists_of_rel (h : Option.Rel (fun e e' : Entry => e.codec.Alike e'.codec) x y)
    (hx : x = some e) : ∃ e', y = some e' ∧ e.codec.Alike e'.codec := by
  cases h with
  | some halike =>
    cases hx
    exact ⟨_, rfl, halike⟩
  | none => cases hx

end Found

theorem alike_empty : empty.Alike empty := ⟨fun _ _ => .none, fun _ _ => .none⟩

section Alike

variable {r r' : Registry} {g g' : Registration}

theorem Alike.taken_iff (h : r.Alike r') (hg : g.Alike g') : r'.Taken g' ↔ r.Taken g := by
  have hisSome : ∀ {x y : Option Entry},
      Option.Rel (fun e e' => e.codec.Alike e'.codec) x y → (y.isSome ↔ x.isSome) := by
    rintro _ _ (_ | _) <;> simp
  rw [Taken, Taken, hg.base, hg.codec.encoded, hg.codec.typeName, hisSome (h.byType _ _),
    hisSome (h.byTag _ _)]

/-- Whether a registration is refused depends on names and types alone, and so does the key under
which its codec is found. -/
theorem Alike.perform (h : r.Alike r') (hg : g.Alike g') (hr : r.Coherent) (hr' : r'.Coherent) :
    (r.perform g).1.Alike (r'.perform g').1 := by
  by_cases htaken : r.Taken g
  · rw [(hr.registers g).unchanged htaken,
      (hr'.registers g').unchanged ((h.taken_iff hg).2 htaken)]
    exact h
  · have htaken' : ¬ r'.Taken g' := mt (h.taken_iff hg).1 htaken
    have htag : g'.entry.tag = g.entry.tag := congrArg discriminator hg.codec.typeName
    constructor
    · intro base type
      rw [(hr.registers g).byType htaken, (hr'.registers g').byType htaken', hg.base,
        hg.codec.encoded]
      split
      · exact .some hg.codec
      · exact h.byType base type
    · intro base tag
      rw [(hr.registers g).byTag htaken, (hr'.registers g').byTag htaken', hg.base, htag]
      split
      · exact .some hg.codec
      · exact h.byTag base tag

end Alike

theorem alike_run {calls calls' : List Registration}
    (h : List.Forall₂ Registration.Alike calls calls') : (run calls).Alike (run calls') := by
  have hfold : ∀ r r' : Registry, r.Coherent → r'.Coherent → r.Alike r' →
      (calls.foldl (fun r g => (r.perform g).1) r).Alike
        (calls'.foldl (fun r g => (r.perform g).1) r') := by
    induction h with
    | nil => exact fun r r' _ _ hrr' => hrr'
    | @cons g g' _ _ hg _ ih =>
      intro r r' hr hr' hrr'
      exact ih _ _ (hr.register g.base g.codec g.upcast) (hr'.register g'.base g'.codec g'.upcast)
        (hrr'.perform hg hr hr')
  exact hfold empty empty coherent_empty coherent_empty alike_empty

/-! ### Failures that do not come from a codec -/

section Raises

variable {σ α : Type} {op : Registry → EStateM CodecError σ α} {calls calls' : List Registration}
  {s s' : σ} {error : CodecError}

/-- The registry itself fails with the error: it does so, and leaves the same behind, whatever the
codecs that are registered do. -/
def Raises (op : Registry → EStateM CodecError σ α) (calls : List Registration) (s : σ)
    (error : CodecError) : Prop :=
  ∃ s', ∀ calls', List.Forall₂ Registration.Alike calls calls' →
    op (run calls') s = .error error s'

theorem raises_iff_eq
    (h : ∀ calls', List.Forall₂ Registration.Alike calls calls' →
      op (run calls') s = .error error s') (error' : CodecError) :
    Raises op calls s error' ↔ error' = error := by
  constructor
  · rintro ⟨s'', hraises⟩
    have hself := Registration.forall₂_alike_self calls
    cases (h calls hself).symm.trans (hraises calls hself)
    rfl
  · rintro rfl
    exact ⟨s', h⟩

theorem not_raises_of_ok (halike : List.Forall₂ Registration.Alike calls calls') {a : α}
    (h : op (run calls') s = .ok a s') (error' : CodecError) : ¬ Raises op calls s error' := by
  rintro ⟨s'', hraises⟩
  cases h.symm.trans (hraises calls' halike)

end Raises

/-- What a codec gets of the dependency that is supplied: nothing if it takes none, and otherwise
just what is supplied, which is of the type that it expects. -/
inductive Gets (c : ObjectCodec) : Option Typed → Option Value → Prop
  | independent (supplied : Option Typed) (h : c.dependency = none) : Gets c supplied none
  | unsupplied : Gets c none none
  | supplied {d : Typed} (h : c.dependency = some d.type) : Gets c (some d) (some d.value)

theorem dependencyOf_eq_ok_iff {c : ObjectCodec} {supplied : Option Typed} {d : Option Value} :
    c.dependencyOf supplied = .ok d ↔ Gets c supplied d := by
  constructor
  · intro h
    unfold ObjectCodec.dependencyOf at h
    split at h
    · next hnone =>
      cases h
      exact .independent _ hnone
    · cases h
      exact .unsupplied
    · next expected d' hexpected =>
      split at h
      · next htype =>
        cases h
        exact .supplied (htype ▸ hexpected)
      · cases h
  · intro h
    cases h with
    | independent _ h => simp [ObjectCodec.dependencyOf, h]
    | unsupplied => cases hc : c.dependency <;> simp [ObjectCodec.dependencyOf, hc]
    | supplied h => simp [ObjectCodec.dependencyOf, h]

/-- Why the codec that is looked for is not run: there is none, or the dependency is of another
type than that which it expects. -/
inductive Unserved (found : Option Entry) (missing : CodecError) (dependency : Option Typed) :
    CodecError → Prop
  | missing (h : found = none) : Unserved found missing dependency missing
  | mismatch {e : Entry} {expected : String} {d : Typed} (he : found = some e)
      (hexpected : e.codec.dependency = some expected) (hd : dependency = some d)
      (hne : d.type ≠ expected) :
      Unserved found missing dependency (.dependencyMismatch e.codec.typeName expected)

section Unserved

variable {found : Option Entry} {missing : CodecError} {dependency : Option Typed}
  {error error' : CodecError} {e : Entry} {d : Option Value}

/-- A dependency that is refused gets to no codec. -/
theorem Unserved.not_gets (h : Unserved found missing dependency error) (he : found = some e) :
    ¬ Gets e.codec dependency d := by
  intro hgets
  cases h with
  | missing hnone => cases hnone.symm.trans he
  | mismatch he' hexpected hd hne =>
    cases he'.symm.trans he
    have hrefused := dependencyOf_eq_error_iff.2 ⟨_, _, hexpected, hd, hne, rfl⟩
    cases hrefused.symm.trans (dependencyOf_eq_ok_iff.2 hgets)

theorem Unserved.eq (h : Unserved found missing dependency error)
    (h' : Unserved found missing dependency error') : error' = error := by
  cases h with
  | missing hnone =>
    cases h' with
    | missing => rfl
    | mismatch he => cases hnone.symm.trans he
  | mismatch he hexpected =>
    cases h' with
    | missing hnone => cases hnone.symm.trans he
    | mismatch he' hexpected' =>
      cases he.symm.trans he'
      cases hexpected.symm.trans hexpected'
      rfl

theorem unserved_or_gets (found : Option Entry) (missing : CodecError)
    (dependency : Option Typed) : (∃ error, Unserved found missing dependency error) ∨
      ∃ e d, found = some e ∧ Gets e.codec dependency d := by
  cases found with
  | none => exact .inl ⟨missing, .missing rfl⟩
  | some e =>
    cases hdependency : e.codec.dependencyOf dependency with
    | error error =>
      obtain ⟨expected, d, hexpected, hd, hne, rfl⟩ := dependencyOf_eq_error_iff.1 hdependency
      exact .inl ⟨_, .mismatch rfl hexpected hd hne⟩
    | ok d => exact .inr ⟨e, d, rfl, dependencyOf_eq_ok_iff.1 hdependency⟩

end Unserved

/-- A call that looks for a codec: the registry itself fails exactly if the codec is not to be run;
otherwise the call is that of the codec with what it gets of the dependency.  So every failure is
one of the registry or of the codec, and a type mismatch is one of the codec. -/
structure Serves {σ α : Type} (op : Registry → EStateM CodecError σ α) (calls : List Registration)
    (s : σ) (found : Option Entry) (missing : CodecError) (dependency : Option Typed)
    (call : Entry → Option Value → EStateM.Result CodecError σ α) : Prop where
  raises : ∀ error, Raises op calls s error ↔ Unserved found missing dependency error
  runs : ∀ e d, found = some e → Gets e.codec dependency d → op (run calls) s = call e d
  passes : ∀ error s', op (run calls) s = .error error s' → Raises op calls s error ∨
    ∃ e d, found = some e ∧ Gets e.codec dependency d ∧ call e d = .error error s'
  noTypeMismatch : ∀ expected actual, ¬ Raises op calls s (.typeMismatch expected actual)

section Serves

variable {σ α : Type} {op : Registry → EStateM CodecError σ α} {calls : List Registration}
  {s s' : σ} {found : Option Entry} {missing error : CodecError} {dependency : Option Typed}
  {call : Entry → Option Value → EStateM.Result CodecError σ α}

theorem serves_of_unserved (s' : σ) (h : Unserved found missing dependency error)
    (herror : ∀ expected actual, error ≠ .typeMismatch expected actual)
    (hop : ∀ calls', List.Forall₂ Registration.Alike calls calls' →
      op (run calls') s = .error error s') :
    Serves op calls s found missing dependency call := by
  have hraises := raises_iff_eq hop
  constructor
  · intro error'
    rw [hraises]
    exact ⟨fun heq => heq ▸ h, h.eq⟩
  · exact fun e d he hgets => absurd hgets (h.not_gets he)
  · intro error' s'' hfails
    cases (hop calls (Registration.forall₂_alike_self calls)).symm.trans hfails
    exact .inl ((hraises _).2 rfl)
  · exact fun expected actual hmismatch => herror _ _ ((hraises _).1 hmismatch).symm

theorem serves_of_gets {e : Entry} {d : Option Value} (he : found = some e)
    (hgets : Gets e.codec dependency d) (hop : op (run calls) s = call e d)
    (hidle : ∃ a s', op (run (calls.map Registration.idle)) s = .ok a s') :
    Serves op calls s found missing dependency call := by
  obtain ⟨a, s', hok⟩ := hidle
  have hraises := not_raises_of_ok (Registration.forall₂_alike_idle calls) hok
  constructor
  · exact fun error => iff_of_false (hraises error) fun h => h.not_gets he hgets
  · intro e' d' he' hgets'
    cases he.symm.trans he'
    cases (dependencyOf_eq_ok_iff.2 hgets).symm.trans (dependencyOf_eq_ok_iff.2 hgets')
    exact hop
  · exact fun error s' hfails => .inr ⟨e, d, he, hgets, hop.symm.trans hfails⟩
  · exact fun expected actual => hraises _

/-- A call serves the codec that it finds if it does so in every registry. -/
theorem serves_of_find (find : Registry → Option Entry) (s₀ : σ) (left : String → σ)
    (hmissing : ∀ expected actual, missing ≠ .typeMismatch expected actual)
    (halike : ∀ calls', List.Forall₂ Registration.Alike calls calls' →
      Option.Rel (fun e e' : Entry => e.codec.Alike e'.codec) (find (run calls))
        (find (run calls')))
    (hnone : ∀ r, find r = none → op r s = .error missing s₀)
    (herror : ∀ r e error, r.Coherent → find r = some e →
      e.codec.dependencyOf dependency = .error error →
        op r s = .error error (left e.codec.typeName))
    (hok : ∀ r e d, r.Coherent → find r = some e → e.codec.dependencyOf dependency = .ok d →
      op r s = call e d)
    (hidle : ∀ e d, find (run (calls.map Registration.idle)) = some e →
      ∃ a s', call e d = .ok a s') :
    Serves op calls s (find (run calls)) missing dependency call := by
  obtain ⟨error, hunserved⟩ | ⟨e, d, he, hgets⟩ :=
    unserved_or_gets (find (run calls)) missing dependency
  · cases hunserved with
    | missing hfound =>
      refine serves_of_unserved s₀ (.missing hfound) hmissing fun calls' h => ?_
      exact hnone _ (eq_none_of_rel (halike calls' h) hfound)
    | @mismatch e expected d he hexpected hd hne =>
      refine serves_of_unserved (left e.codec.typeName) (.mismatch he hexpected hd hne) (by simp)
        fun calls' h => ?_
      obtain ⟨e', he', hcodec⟩ := exists_of_rel (halike calls' h) he
      have hrefused := dependencyOf_eq_error_iff.2 ⟨expected, d, hexpected, hd, hne, rfl⟩
      rw [← hcodec.dependencyOf_eq] at hrefused
      rw [herror _ e' _ (coherent_run calls') he' hrefused, hcodec.typeName]
  · have hd := dependencyOf_eq_ok_iff.2 hgets
    obtain ⟨e', he', hcodec⟩ := exists_of_rel (halike _ (Registration.forall₂_alike_idle calls)) he
    obtain ⟨a, s', hcall⟩ := hidle e' d he'
    refine serves_of_gets he hgets (hok _ e d (coherent_run calls) he hd) ⟨a, s', ?_⟩
    rw [← hcodec.dependencyOf_eq] at hd
    rw [hok _ e' d (coherent_run _) he' hd, hcall]

end Serves

/-- A codec that is found among idle ones is idle. -/
theorem idle_of_accepts {calls : List Registration} {g : Registration}
    (h : Accepts (calls.map Registration.idle) g) :
    (∀ v d p, g.codec.encode v d p = .ok () p) ∧ ∀ d i, g.codec.decode d i = .ok .unit i := by
  obtain ⟨before, after, hcalls, -⟩ := h
  have hmem : g ∈ calls.map Registration.idle := by simp [hcalls]
  obtain ⟨g', -, rfl⟩ := List.mem_map.1 hmem
  exact ⟨fun _ _ _ => rfl, fun _ _ => rfl⟩

/-! ### Writing -/

/-- Writing a value serves the codec for its type, behind the discriminator of the codec. -/
theorem serves_encode (calls : List Registration) (base : String) (v : Typed)
    (dependency : Option Typed) (p : Bytes) :
    Serves (fun r => r.encode base v dependency) calls p
      ((run calls).entryForType? base v.type) (.unregisteredType base) dependency
      (fun e d => e.codec.encode v.value d (p ++ tagBytes (discriminator e.codec.typeName))) := by
  refine serves_of_find (fun r => r.entryForType? base v.type) p
    (fun typeName => p ++ tagBytes (discriminator typeName)) (by simp) ?_ ?_ ?_ ?_ ?_
  · exact fun calls' h => (alike_run h).byType base v.type
  · exact fun r hnone => encode_of_not_found hnone dependency p
  · intro r e error hr he herror
    rw [hr.encode_of_found he]
    exact Entry.encode_apply_error herror _ _
  · intro r e d hr he hd
    rw [hr.encode_of_found he]
    exact Entry.encode_apply hd _ _
  · intro e d he
    obtain ⟨g, hg, -, rfl⟩ := entryForType?_run_iff.1 he
    exact ⟨(), _, (idle_of_accepts hg).1 _ _ _⟩

/-! ### Reading -/

/-- The discriminator that stands next in the input. -/
def nextTag (i : Input) : UInt32 := UInt32.ofNat (ofLittleEndian (i.next 4))

/-- A discriminator is read where four bytes are left. -/
theorem readTag_eq (i : Input) (hlength : i.buffer.length < UInt64.size) :
    Reader.bits .w32 i = if 4 ≤ i.remaining then .ok (ofLittleEndian (i.next 4)) (i.advance 4)
      else .error (.readFailed i.offset .endOfBuffer) i := by
  have hroom : i.offset + 4 ≤ i.buffer.length ↔ 4 ≤ i.remaining := by
    unfold Input.remaining
    omega
  have hfits : i.offset + 4 ≤ i.buffer.length → Reader.fitsOffset (i.offset + 4) = true :=
    fun h => decide_eq_true (h.trans_lt hlength)
  have hbytes := Reader.bytes_apply 4 i
  by_cases h : 4 ≤ i.remaining
  · rw [if_pos (by simp [hfits (hroom.2 h), hroom.2 h])] at hbytes
    rw [if_pos h]
    exact bind_eq_of_ok hbytes _
  · rw [if_neg (by simp [mt hroom.1 h])] at hbytes
    rw [if_neg h]
    exact bind_eq_of_error hbytes _

section Decode

variable {r : Registry} {base : String} {e : Entry} {dependency : Option Typed} {i : Input}

/-- An entry that is found by a discriminator is one of the base. -/
theorem Coherent.base_of_tag (hr : r.Coherent) {tag : UInt32}
    (he : r.entryForTag? base tag = some e) : e.base = base := by
  obtain ⟨entries, ht⟩ := hr.tables base
  obtain ⟨hmem, -⟩ := (ht.lookup_tag tag e).1 he
  exact ht.bases e hmem

theorem decode_of_short (hlength : i.buffer.length < UInt64.size) (hshort : i.remaining < 4) :
    r.decode base dependency i = .error (.readFailed i.offset .endOfBuffer) i := by
  have htag := readTag_eq i hlength
  rw [if_neg (Nat.not_le.2 hshort)] at htag
  exact bind_eq_of_error htag _

variable (hlength : i.buffer.length < UInt64.size) (hroom : 4 ≤ i.remaining)

include hlength hroom

theorem decode_of_not_found (hnone : r.entryForTag? base (nextTag i) = none) :
    r.decode base dependency i = .error (.unknownDiscriminator base (nextTag i)) (i.advance 4) := by
  have htag := readTag_eq i hlength
  rw [if_pos hroom] at htag
  rw [decode, bind_eq_of_ok htag]
  simp only [show UInt32.ofNat (ofLittleEndian (i.next 4)) = nextTag i from rfl, hnone]
  rfl

/-- What stands behind a discriminator is read by the entry that is found by it. -/
theorem Coherent.decode_of_found (hr : r.Coherent) (he : r.entryForTag? base (nextTag i) = some e) :
    r.decode base dependency i = e.decode e.base dependency (i.advance 4) := by
  have htag := readTag_eq i hlength
  rw [if_pos hroom] at htag
  rw [decode, bind_eq_of_ok htag]
  simp only [show UInt32.ofNat (ofLittleEndian (i.next 4)) = nextTag i from rfl, he,
    hr.base_of_tag he]

end Decode

theorem Entry.decode_apply_error {e : Entry} {dependency : Option Typed} {error : CodecError}
    (hd : e.codec.dependencyOf dependency = .error error) (i : Input) :
    e.decode e.base dependency i = .error error i := by
  simp only [Entry.decode, hd, ofExcept]
  rfl

/-- Reading a value serves the codec for the discriminator that stands next. -/
theorem serves_decode (calls : List Registration) (base : String) (dependency : Option Typed)
    {i : Input} (hlength : i.buffer.length < UInt64.size) (hroom : 4 ≤ i.remaining) :
    Serves (fun r => r.decode base dependency) calls i
      ((run calls).entryForTag? base (nextTag i)) (.unknownDiscriminator base (nextTag i))
      dependency (fun e d => (e.upcast <$> e.codec.decode d) (i.advance 4)) := by
  refine serves_of_find (fun r => r.entryForTag? base (nextTag i)) (i.advance 4)
    (fun _ => i.advance 4) (by simp) ?_ ?_ ?_ ?_ ?_
  · exact fun calls' h => (alike_run h).byTag base (nextTag i)
  · exact fun r hnone => decode_of_not_found hlength hroom hnone
  · intro r e error hr he herror
    rw [hr.decode_of_found hlength hroom he]
    exact Entry.decode_apply_error herror _
  · intro r e d hr he hd
    rw [hr.decode_of_found hlength hroom he]
    exact Entry.decode_apply hd _
  · intro e d he
    obtain ⟨g, hg, -, rfl⟩ := entryForTag?_run_iff.1 he
    refine ⟨g.upcast .unit, i.advance 4, ?_⟩
    rw [map_eq_pure_bind]
    exact bind_eq_of_ok ((idle_of_accepts hg).2 d _) _

/-- Which failures of a registry are its own, after any registrations.  In writing these are the
want of a codec for the type of the value, and a dependency of another type than that which the
codec expects.  In reading it is the lack of bytes where fewer than four are left, and otherwise
the want of a codec for the discriminator or, again, the dependency. -/
theorem failures_of_registry (calls : List Registration) (base : String)
    (dependency : Option Typed) :
    (∀ v p, Serves (fun r => r.encode base v dependency) calls p
      ((run calls).entryForType? base v.type) (.unregisteredType base) dependency
      (fun e d => e.codec.encode v.value d (p ++ tagBytes (discriminator e.codec.typeName)))) ∧
    ∀ i : Input, i.buffer.length < UInt64.size →
      (i.remaining < 4 → ∀ error, Raises (fun r => r.decode base dependency) calls i error ↔
        error = .readFailed i.offset .endOfBuffer) ∧
      (4 ≤ i.remaining → Serves (fun r => r.decode base dependency) calls i
        ((run calls).entryForTag? base (nextTag i)) (.unknownDiscriminator base (nextTag i))
        dependency (fun e d => (e.upcast <$> e.codec.decode d) (i.advance 4))) := by
  refine ⟨fun v p => serves_encode calls base v dependency p, fun i hlength => ⟨fun hshort => ?_,
    serves_decode calls base dependency hlength⟩⟩
  exact raises_iff_eq fun calls' _ => decode_of_short hlength hshort

/-- A value of another type, a discriminator that is cut, and a value whose codec expects `Units`:
with a dependency of another type it is not read, and with `Units` the codec gets just that. -/
theorem failures_of_registry_gizmo :
    Raises (fun r => r.encode "Gadget" ⟨"Widget", .integer 5⟩ none) [gizmo] [9]
      (.unregisteredType "Gadget") ∧
    Raises (fun r => r.decode "Gadget" none) [gizmo] ⟨[155, 229, 161], 0⟩
      (.readFailed 0 .endOfBuffer) ∧
    Raises (fun r => r.decode "Gadget" (some ⟨"Ctx", .unit⟩)) [gizmo]
      ⟨tagBytes (discriminator "Gizmo") ++ [5], 0⟩ (.dependencyMismatch "Gizmo" "Units") ∧
    (run [gizmo]).decode "Gadget" (some ⟨"Units", .unit⟩)
        ⟨tagBytes (discriminator "Gizmo") ++ [5], 0⟩ =
      (gizmo.upcast <$> gizmo.codec.decode (some .unit))
        ⟨tagBytes (discriminator "Gizmo") ++ [5], 4⟩ := by
  have hfound : (run [gizmo]).entryForTag? "Gadget"
      (nextTag ⟨tagBytes (discriminator "Gizmo") ++ [5], 0⟩) = some gizmo.entry := rfl
  refine ⟨?_, ?_, ?_, ?_⟩
  · obtain ⟨hwrites, -⟩ := failures_of_registry [gizmo] "Gadget" none
    exact ((hwrites ⟨"Widget", .integer 5⟩ [9]).raises _).2 (.missing rfl)
  · obtain ⟨-, hreads⟩ := failures_of_registry [gizmo] "Gadget" none
    exact ((hreads ⟨[155, 229, 161], 0⟩ (by decide)).1 (by decide) _).2 rfl
  · obtain ⟨-, hreads⟩ := failures_of_registry [gizmo] "Gadget" (some ⟨"Ctx", .unit⟩)
    have hserves := (hreads ⟨tagBytes (discriminator "Gizmo") ++ [5], 0⟩ (by decide)).2 (by decide)
    exact (hserves.raises _).2 (.mismatch hfound rfl rfl (by decide))
  · obtain ⟨-, hreads⟩ := failures_of_registry [gizmo] "Gadget" (some ⟨"Units", .unit⟩)
    have hserves := (hreads ⟨tagBytes (discriminator "Gizmo") ++ [5], 0⟩ (by decide)).2 (by decide)
    exact hserves.runs _ _ hfound (.supplied rfl)

end Registry

end CodecForge.Dispatch
