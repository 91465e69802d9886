import CodecForge.Proofs.Eval.Transfer
import CodecForge.Proofs.Lists

/-!
# Statements for the fields of a codec

What the statements that write and read a list of fields do.  The encoder writes what each field
reaches in the instance, and the decoder binds what was written to the name of each field, provided
that these names are distinct.
-/

namespace CodecForge.Eval

open CodecForge.Source CodecForge.Plan CodecForge.Code CodecForge.Wire

/-! ### Local names -/

namespace Locals

variable (locals : Locals)

@[simp] theorem value_bind_self (name : String) (v : Value) :
    (locals.bind name v).value name = v := by
  simp [bind, value]

theorem value_bind_of_ne {name name' : String} (h : name' ≠ name) (v : Value) :
    (locals.bind name v).value name' = locals.value name' := by
  simp [bind, value, List.lookup_cons, beq_eq_false_iff_ne.2 h]

/-- Binds the name of each field, the first one first. -/
def bindAll (fields : List WireField) (x : WireField → Value) : Locals :=
  fields.foldl (fun locals f => locals.bind f.binding.text (x f)) locals

variable {locals} {fields : List WireField} {x : WireField → Value}

theorem value_bindAll_of_notMem {name : String}
    (h : name ∉ fields.map fun f => f.binding.text) :
    (locals.bindAll fields x).value name = locals.value name := by
  induction fields generalizing locals with
  | nil => rfl
  | cons f fields ih =>
    rw [List.map_cons, List.mem_cons, not_or] at h
    have htail : ((locals.bind f.binding.text (x f)).bindAll fields x).value name =
        (locals.bind f.binding.text (x f)).value name := ih h.2
    rw [locals.value_bind_of_ne h.1] at htail
    exact htail

theorem value_bindAll_of_mem (hnames : (fields.map fun f => f.binding.text).Nodup)
    {f : WireField} (hf : f ∈ fields) : (locals.bindAll fields x).value f.binding.text = x f := by
  induction fields generalizing locals with
  | nil => cases hf
  | cons f' fields ih =>
    rw [List.map_cons, List.nodup_cons] at hnames
    rcases List.mem_cons.1 hf with rfl | hf
    · have htail : ((locals.bind f.binding.text (x f)).bindAll fields x).value f.binding.text =
          (locals.bind f.binding.text (x f)).value f.binding.text :=
        value_bindAll_of_notMem hnames.1
      rw [value_bind_self] at htail
      exact htail
    · exact ih hnames.2 hf

end Locals

/-! ### Writing fields -/

/-- What a field reaches in an instance. -/
def reachValue (h : Host) (self : Value) : Reach → Value
  | .getter method => h.method method self
  | .publicField path => self.fieldAt (pathNames path)
  | .rawOffset _ path _ => self.fieldAt (pathNames path)

/-- Writes what a field reaches in an instance. -/
def writeField (m : Marshalling) (h : Host) (self : Value) (f : WireField) : Writer Unit :=
  writeValue m f.type (reachValue h self f.reach) (Transfer.of f.kind)

theorem slotPath_of_mem {slots : List Slot} (hnames : (slots.map Slot.name).Nodup) {s : Slot}
    (hs : s ∈ slots) : slotPath slots s.name = s.path := by
  rw [slotPath, ← List.head?_filter, filter_key_eq_singleton hnames hs]
  rfl

section Encode

variable {m : Marshalling} {h : Host} {slots : List Slot} {self : Value}

/-- The statements for a field write what it reaches, whatever names are bound before. -/
theorem foldlM_encodeField {f : WireField} {steps : List EncodeStep} {slot : Option Slot}
    (hf : encodeField f = .ok (steps, slot))
    (hslot : ∀ s ∈ slot, slotPath slots s.name = s.path) (locals : Locals) :
    ∃ locals', steps.foldlM (encodeStep m h slots self) locals =
      (do writeField m h self f; return locals') := by
  cases hreach : f.reach with
  | getter method =>
    simp only [encodeField, hreach, pure, Except.pure, Except.ok.injEq, Prod.mk.injEq] at hf
    obtain ⟨rfl, -⟩ := hf
    exact ⟨_, by simp [encodeStep, writeField, hreach, reachValue]; rfl⟩
  | publicField path =>
    simp only [encodeField, hreach, pure, Except.pure, Except.ok.injEq, Prod.mk.injEq] at hf
    obtain ⟨rfl, -⟩ := hf
    exact ⟨_, by simp [encodeStep, writeField, hreach, reachValue]; rfl⟩
  | rawOffset declaring path type =>
    simp only [encodeField, hreach] at hf
    obtain ⟨name, -, hf⟩ := bind_eq_ok_iff.1 hf
    cases hf
    have hpath := hslot _ rfl
    exact ⟨_, by simp [encodeStep, writeField, hreach, reachValue, hpath]; rfl⟩

/-- The statements for all fields write what each of them reaches. -/
theorem foldlM_encodeFields {wire : List WireField} {parts : List (List EncodeStep × Option Slot)}
    (hparts : List.Forall₂ (fun f part => encodeField f = .ok part) wire parts)
    (hslots : ∀ part ∈ parts, ∀ s ∈ part.2, slotPath slots s.name = s.path) (locals : Locals) :
    (do let _ ← (parts.flatMap (·.1)).foldlM (encodeStep m h slots self) locals) =
      wire.forM (writeField m h self) := by
  induction hparts generalizing locals with
  | nil => simp
  | @cons f part wire parts hf _ ih =>
    rw [List.forall_mem_cons] at hslots
    obtain ⟨locals', hsteps⟩ : ∃ locals', part.1.foldlM (encodeStep m h slots self) locals =
        (do writeField m h self f; return locals') := foldlM_encodeField hf hslots.1 locals
    rw [List.flatMap_cons, List.foldlM_append, hsteps]
    simp only [bind_assoc, pure_bind, ih hslots.2 locals']
    rfl

end Encode

/-! ### Reading fields -/

section Decode

variable {m : Marshalling} {h : Host} {dependency : Option Value} {wire : List WireField}

/-- The statements that read the fields bind each name to what is read of the bytes of the value
for it. -/
theorem readAs_fields {values : Ty → Value → Prop} (hm : m.ReadsBack values) {self : Value}
    (hfits : ∀ f ∈ wire, Fits m values f.type (reachValue h self f.reach) (Transfer.of f.kind))
    (locals : Locals) :
    Writer.ReadAs (wire.forM (writeField m h self))
      ((wire.map decodeField).foldlM (decodeStep m h dependency) locals)
      (locals.bindAll wire fun f => reachValue h self f.reach) := by
  induction wire generalizing locals with
  | nil => exact Writer.readAs_pure locals
  | cons f wire ih =>
    rw [List.forall_mem_cons] at hfits
    have hhead := (readAs_value hm hfits.1).map (locals.bind f.binding.text ·)
    exact hhead.bind (ih hfits.2 _)

/-- Reading the fields leaves all other names. -/
theorem value_of_reads_of_notMem {locals locals' : Locals} {i i' : Input}
    (hrun : (wire.map decodeField).foldlM (decodeStep m h dependency) locals i = .ok locals' i')
    {name : String} (hname : name ∉ wire.map fun f => f.binding.text) :
    locals'.value name = locals.value name := by
  induction wire generalizing locals i with
  | nil =>
    cases hrun
    rfl
  | cons f wire ih =>
    rw [List.map_cons, List.mem_cons, not_or] at hname
    obtain ⟨_, j, hhead, htail⟩ := exists_of_bind_eq_ok hrun
    obtain ⟨v, _, -, hv⟩ := exists_of_bind_eq_ok hhead
    cases hv
    rw [ih htail hname.2, locals.value_bind_of_ne hname.1]

/-- What a name is bound to was read for its field. -/
theorem exists_readValue_of_reads (hnames : (wire.map fun f => f.binding.text).Nodup)
    {locals locals' : Locals} {i i' : Input}
    (hrun : (wire.map decodeField).foldlM (decodeStep m h dependency) locals i = .ok locals' i')
    {f : WireField} (hf : f ∈ wire) :
    ∃ j j', readValue m f.type (Transfer.of f.kind) j =
      .ok (locals'.value f.binding.text) j' := by
  induction wire generalizing locals i with
  | nil => cases hf
  | cons f' wire ih =>
    rw [List.map_cons, List.nodup_cons] at hnames
    obtain ⟨_, j, hhead, htail⟩ := exists_of_bind_eq_ok hrun
    rcases List.mem_cons.1 hf with rfl | hf
    · obtain ⟨v, j', hread, hv⟩ := exists_of_bind_eq_ok hhead
      cases hv
      rw [value_of_reads_of_notMem htail hnames.1, Locals.value_bind_self]
      exact ⟨_, _, hread⟩
    · exact ih hnames.2 htail hf

end Decode

end CodecForge.Eval
