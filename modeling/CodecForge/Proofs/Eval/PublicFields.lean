import CodecForge.Proofs.Eval.Steps
import CodecForge.Proofs.Plan.PublicFields

/-!
# Codecs that assign the public fields

The encoder of such a codec writes the public fields, one after the other, and the decoder sets the
fields of the default to what it reads.  Since none of the paths to these fields leads through the
end of another, each field is the one of the value that was written, and all else is as in the
default.
-/

namespace CodecForge.Eval

open CodecForge.Schema CodecForge.Source CodecForge.Plan CodecForge.Code CodecForge.Wire

variable {d : TypeDecl} {plan : PublicFieldsPlan} {type : Path} {m : Marshalling} {h : Host}
  {v : Value}

/-! ### The unit of a plan -/

/-- Each field is read by its path. -/
def ByPath (fields : List WireField) : Prop := ∀ f ∈ fields, f.reach = .publicField f.reach.path

/-- The statements that borrow a field by its path and write it. -/
def writeSteps (f : WireField) : List EncodeStep :=
  [.borrowField f.binding f.type f.reach.path, .write (Transfer.of f.kind) f.type f.binding]

def assignStep (f : WireField) : DecodeStep := .assign f.reach.path f.binding

theorem filterMap_withPath {fields : List WireField} (hpath : ByPath fields) :
    fields.filterMap withPath = fields.map fun f => (f, f.reach.path) := by
  rw [← List.filterMap_eq_map']
  refine List.filterMap_congr fun f hf => ?_
  rw [withPath, hpath f hf]
  rfl

theorem ofPublicFields_bodies (type : Path) (hpath : ByPath plan.fields) :
    (ofPublicFields type plan).encode = .steps (plan.fields.flatMap writeSteps) ∧
      (ofPublicFields type plan).decode =
        .steps (plan.fields.map decodeField ++ .startDefault type :: plan.fields.map assignStep)
          .assigned := by
  simp only [ofPublicFields, filterMap_withPath hpath, List.flatMap_map, List.map_map]
  exact ⟨rfl, rfl⟩

/-! ### Writing -/

theorem encodeField_eq_writeSteps {f : WireField} (hf : f.reach = .publicField f.reach.path) :
    encodeField f = .ok (writeSteps f, none) := by
  rw [encodeField, hf]
  rfl

theorem encodeUnit_publicFields (hpath : ByPath plan.fields) (given : Option Value) :
    encodeUnit m h (ofPublicFields type plan) v given = plan.fields.forM (writeField m h v) := by
  have hparts : List.Forall₂ (fun f part => encodeField f = .ok part) plan.fields
      (plan.fields.map fun f => (writeSteps f, none)) := by
    rw [List.forall₂_map_right_iff, List.forall₂_same]
    exact fun f hf => encodeField_eq_writeSteps (hpath f hf)
  have hsteps : (plan.fields.map fun f => (writeSteps f, (none : Option Slot))).flatMap (·.1) =
      plan.fields.flatMap writeSteps := List.flatMap_map ..
  simp only [encodeUnit, (ofPublicFields_bodies type hpath).1, encodeSteps, ← hsteps]
  exact foldlM_encodeFields hparts (by simp) []

/-- What is written depends on nothing but the fields at the paths. -/
theorem encodeUnit_congr (hpath : ByPath plan.fields) {v' : Value}
    (hsame : ∀ p ∈ plan.paths, v'.fieldAt p = v.fieldAt p) (given given' : Option Value) :
    encodeUnit m h (ofPublicFields type plan) v' given' =
      encodeUnit m h (ofPublicFields type plan) v given := by
  rw [encodeUnit_publicFields hpath, encodeUnit_publicFields hpath]
  refine forM_congr fun f hf => ?_
  have hfield := hsame _ (List.mem_map_of_mem hf)
  rw [writeField, writeField, hpath f hf]
  exact congrArg (writeValue m f.type · _) hfield

/-! ### Reading -/

section Decode

variable {dependency : Option Value}

/-- The statements that set the fields turn the instance into that with all of them restored, if
each local name is bound to what is to be set. -/
theorem run_assignSteps {fields : List WireField}
    (hname : instanceName ∉ fields.map fun f => f.binding.text) {locals : Locals}
    (hbound : ∀ f ∈ fields,
      locals.value f.binding.text = v.fieldAt (f.reach.path.map Ident.bare)) :
    (do
      let locals ← (fields.map assignStep).foldlM (decodeStep m h dependency) locals
      outcomeValue h locals .assigned) =
        pure (Value.restore v (fields.map fun f => f.reach.path.map Ident.bare)
          (locals.value instanceName)) := by
  induction fields generalizing locals with
  | nil => rfl
  | cons f fields ih =>
    rw [List.map_cons, List.mem_cons, not_or] at hname
    rw [List.forall_mem_cons] at hbound
    let next := locals.bind instanceName
      (Value.setAt (locals.value f.binding.text) (f.reach.path.map Ident.bare)
        (locals.value instanceName))
    have hnext : ∀ f' ∈ fields,
        next.value f'.binding.text = v.fieldAt (f'.reach.path.map Ident.bare) := by
      intro f' hf'
      have hne : f'.binding.text ≠ instanceName :=
        fun heq => hname.2 (List.mem_map.2 ⟨f', hf', heq⟩)
      rw [← hbound.2 f' hf']
      exact locals.value_bind_of_ne hne _
    -- the instance of the next statements is that of `next`
    refine (ih hname.2 hnext).trans ?_
    rw [Locals.value_bind_self, hbound.1]
    rfl

/-- The decoder reads what the encoder writes, and sets it in the default. -/
theorem readAs_publicFields {values : Ty → Value → Prop} (hplan : planPublicFields d = .ok plan)
    (given : Option Value) (hm : m.ReadsBack values)
    (hfits : ∀ f ∈ plan.fields,
      Fits m values f.type (reachValue h v f.reach) (Transfer.of f.kind)) :
    Writer.ReadAs (encodeUnit m h (ofPublicFields type plan) v given)
      (decodeUnit m h (ofPublicFields type plan) dependency)
      (Value.restore v plan.paths h.default) := by
  have hpath : ByPath plan.fields := fun f hf => reach_of_plan hplan hf
  have hname := instance_notMem_bindings hplan
  let bound : Locals := Locals.bindAll [] plan.fields fun f => reachValue h v f.reach
  have hreads : Writer.ReadAs (plan.fields.forM (writeField m h v))
      ((plan.fields.map decodeField).foldlM (decodeStep m h dependency) []) bound :=
    readAs_fields hm hfits []
  -- the default does not hide what was read
  have hbound : ∀ f ∈ plan.fields, (bound.bind instanceName h.default).value f.binding.text =
      v.fieldAt (f.reach.path.map Ident.bare) := by
    intro f hf
    have hne : f.binding.text ≠ instanceName := fun heq => hname (List.mem_map.2 ⟨f, hf, heq⟩)
    rw [bound.value_bind_of_ne hne,
      Locals.value_bindAll_of_mem (nodup_bindings_of_publicFields hplan) hf, hpath f hf]
    rfl
  rw [encodeUnit_publicFields hpath]
  simp only [decodeUnit, (ofPublicFields_bodies type hpath).2, decodeSteps, List.foldlM_append,
    bind_assoc]
  refine hreads.bind_of_eq_pure ?_
  refine (run_assignSteps hname hbound).trans ?_
  rw [Locals.value_bind_self]
  rfl

end Decode

/-! ### The round trip -/

/-- The code that is generated is that of the unit for a plan, and exactly the covered fields are
planned.  Where the codecs of the types of these fields read back what they write, what is written
of a value is read back, whatever stands around it, as the default with the fields at the planned
paths restored; all that is omitted is as in the default.  A default has one field for each that is
declared, so the names that are declared are distinct.  What is written depends only on the planned
fields of the value, whatever dependency is given, and the value that is read is written as the one
it was read of. -/
theorem publicFields_roundTrip {g : Generator} {d : TypeDecl} {gen : Generated}
    (hg : g.generate d .publicFields = .ok gen) :
    ∃ type plan,
      readPath d d.pathText = .ok type ∧ planPublicFields d = .ok plan ∧
      gen.encode = (ofPublicFields type plan).encode.tokens g.runtime g.marshaller ∧
      gen.decode = (ofPublicFields type plan).decode.tokens g.runtime g.marshaller ∧
      (∀ p, p ∈ plan.paths ↔ Covered d d.toLevel d.ancestors p) ∧
      ∀ (m : Marshalling) (values : Ty → Value → Prop) (h : Host) (v : Value)
        (given dependency : Option Value) (written written' : Bytes),
        m.ReadsBack values →
        IsInstance d.toLevel d.ancestors h.default →
        (∀ f ∈ plan.fields,
          Fits m values f.type (reachValue h v f.reach) (Transfer.of f.kind)) →
        encodeUnit m h (ofPublicFields type plan) v given written = .ok () written' →
        ∃ b x, written' = written ++ b ∧
          Reader.Yields (decodeUnit m h (ofPublicFields type plan) dependency) b x ∧
          x = Value.restore v plan.paths h.default ∧
          Value.Restored v plan.paths h.default x ∧
          (∀ q, Omitted d d.toLevel d.ancestors q → x.fieldAt q = h.default.fieldAt q) ∧
          (∀ v' given', (∀ p ∈ plan.paths, v'.fieldAt p = v.fieldAt p) →
            encodeUnit m h (ofPublicFields type plan) v' given' =
              encodeUnit m h (ofPublicFields type plan) v given) ∧
          encodeUnit m h (ofPublicFields type plan) x given =
            encodeUnit m h (ofPublicFields type plan) v given := by
  obtain ⟨type, plan, htype, hplan, hencode, hdecode⟩ := generate_publicFields_ok hg
  refine ⟨type, plan, htype, hplan, hencode, hdecode, fun p => mem_paths_iff hplan, ?_⟩
  intro m values h v given dependency written written' hm hdefault hfits hrun
  have hpath : ByPath plan.fields := fun f hf => reach_of_plan hplan hf
  obtain ⟨b, hb, hyields⟩ := readAs_publicFields hplan given hm hfits written written' hrun
  have hcovered : ∀ p ∈ plan.paths, Covered d d.toLevel d.ancestors p :=
    fun p hp => (mem_paths_iff hplan).1 hp
  have hrestored : Value.Restored v plan.paths h.default
      (Value.restore v plan.paths h.default) :=
    Value.restored_restore (fun p hp => (hcovered p hp).hasPath hdefault)
      fun p hp q hq => (hcovered p hp).eq_or_apart (hcovered q hq) hdefault
  refine ⟨b, _, hb, hyields, rfl, hrestored, fun q hq => ?_,
    fun v' given' hsame => encodeUnit_congr hpath hsame given given',
    encodeUnit_congr hpath hrestored.at_path given given⟩
  exact hrestored.apart q fun p hp => (hcovered p hp).apart_of_omitted hq hdefault

/-! ### A packet with a header -/

/-- The base: a public number, and a checksum that is kept private. -/
def headerLevel : Level where
  name := "Header"
  fields := [{ name := "seq", type := "u32", isPublic := true },
    { name := "checksum", type := "u8" }]

/-- A type that embeds the base in a public field, has a public list, counts in private and marks
its values with a type. -/
def packet : TypeDecl where
  name := "Packet"
  fields := [{ name := "header", type := "Header", isPublic := true },
    { name := "payload", type := "Vec<u8>", isPublic := true },
    { name := "hits", type := "u64" },
    { name := "marker", type := "PhantomData<u8>", isPublic := true }]
  ancestors := [⟨"header", headerLevel⟩]

/-- A value of the type. -/
def packetOf (seq checksum : Int) (payload : List Int) (hits : Int) : Value :=
  .record [("header", .record [("seq", .integer seq), ("checksum", .integer checksum)]),
    ("payload", .list (payload.map .integer)), ("hits", .integer hits), ("marker", .unit)]

/-- The default has a checksum and hits of its own. -/
def packetHost : Host where
  typeName := "Packet"
  method _ v := v
  make _ _ := .error ""
  default := packetOf 0 7 [] 9
  canonical := .unit

/-- The plan for the type, up to the types in it. -/
def packetPlan (seq payload : Ty) : PublicFieldsPlan where
  fields := [⟨"header.seq", ⟨"__0_header_seq"⟩, seq, .declared,
      .publicField [⟨"header"⟩, ⟨"seq"⟩]⟩,
    ⟨"payload", ⟨"__1_payload"⟩, payload, .declared, .publicField [⟨"payload"⟩]⟩]
  dependency := none

/-- The plan is that for the type, and its types are those that were declared. -/
def isPacketPlan : Except Fault PublicFieldsPlan → Bool
  | .ok ⟨[⟨"header.seq", ⟨"__0_header_seq"⟩, seq, .declared,
        .publicField [⟨"header"⟩, ⟨"seq"⟩]⟩,
      ⟨"payload", ⟨"__1_payload"⟩, payload, .declared, .publicField [⟨"payload"⟩]⟩], none⟩ =>
    match WireType.ofTy? seq, WireType.ofTy? payload with
    | some (.integer false .w32), some (.list (.integer false .w8)) => true
    | _, _ => false
  | _ => false

theorem exists_of_isPacketPlan {x : Except Fault PublicFieldsPlan} (h : isPacketPlan x = true) :
    ∃ seq payload, x = .ok (packetPlan seq payload) ∧
      WireType.ofTy? seq = some (.integer false .w32) ∧
      WireType.ofTy? payload = some (.list (.integer false .w8)) := by
  unfold isPacketPlan at h
  split at h
  · split at h
    · exact ⟨_, _, rfl, ‹_›, ‹_›⟩
    · cases h
  · cases h

theorem planPublicFields_packet :
    ∃ seq payload, planPublicFields packet = .ok (packetPlan seq payload) ∧
      WireType.ofTy? seq = some (.integer false .w32) ∧
      WireType.ofTy? payload = some (.list (.integer false .w8)) :=
  exists_of_isPacketPlan (by decide +kernel)

theorem generate_packet :
    ∃ gen, (Generator.ofRuntime defaultRuntime).generate packet .publicFields = .ok gen :=
  exists_of_isOk (by decide +kernel)

theorem isInstance_packet : IsInstance packet.toLevel packet.ancestors packetHost.default := by
  have hpacket : (instanceFields packet.toLevel).map fieldName =
      ["header", "payload", "hits", "marker"] := by decide +kernel
  have hheader : (instanceFields headerLevel).map fieldName = ["seq", "checksum"] := by
    decide +kernel
  refine ⟨⟨by decide, hpacket ▸ List.Subperm.refl _⟩, fun f _ hname => ?_⟩
  have hfield : fieldName f = "header" := by
    rw [fieldName, hname]
    decide +kernel
  rw [hfield]
  exact ⟨by decide, hheader ▸ List.Subperm.refl _⟩

theorem fits_packet {seq payload : Ty} (hseq : WireType.ofTy? seq = some (.integer false .w32))
    (hpayload : WireType.ofTy? payload = some (.list (.integer false .w8))) :
    ∀ f ∈ (packetPlan seq payload).fields,
      Fits (marshallingOf .none) BuiltIn f.type
        (reachValue packetHost (packetOf 5 1 [1, 2] 3) f.reach) (Transfer.of f.kind) := by
  refine List.forall_mem_cons.2 ⟨⟨_, hseq, .integer (by decide)⟩,
    List.forall_mem_singleton.2 ⟨_, hpayload, .list fun v hv => ?_⟩⟩
  obtain ⟨n, hn, rfl⟩ := List.mem_map.1 hv
  exact .integer ((by decide : ∀ n ∈ [1, 2], Width.Holds .w8 false n) n hn)

/-- Of a packet travel the number in its header and its payload.  What is read back has them, and
all else from the default. -/
theorem publicFields_roundTrip_packet :
    ∃ type plan, planPublicFields packet = .ok plan ∧
      encodeUnit (marshallingOf .none) packetHost (ofPublicFields type plan)
        (packetOf 5 1 [1, 2] 3) none [] = .ok () [5, 0, 0, 0, 2, 0, 0, 0, 1, 2] ∧
      Reader.Yields
        (decodeUnit (marshallingOf .none) packetHost (ofPublicFields type plan) none)
        [5, 0, 0, 0, 2, 0, 0, 0, 1, 2] (packetOf 5 7 [1, 2] 9) ∧
      encodeUnit (marshallingOf .none) packetHost (ofPublicFields type plan)
        (packetOf 5 7 [1, 2] 9) none [] = .ok () [5, 0, 0, 0, 2, 0, 0, 0, 1, 2] := by
  obtain ⟨gen, hg⟩ := generate_packet
  obtain ⟨type, plan, -, hplan, -, -, -, hround⟩ := publicFields_roundTrip hg
  obtain ⟨seq, payload, hpacket, hseq, hpayload⟩ := planPublicFields_packet
  obtain rfl : plan = packetPlan seq payload := Except.ok.inj (hplan.symm.trans hpacket)
  have hwrites : encodeUnit (marshallingOf .none) packetHost
      (ofPublicFields type (packetPlan seq payload)) (packetOf 5 1 [1, 2] 3) none [] =
        .ok () [5, 0, 0, 0, 2, 0, 0, 0, 1, 2] := by
    rw [encodeUnit_publicFields fun f hf => reach_of_plan hplan hf]
    simp only [packetPlan, List.forM_eq_forM, List.forM_cons, List.forM_nil, writeField,
      reachValue, Transfer.of, Kind.inlineArray?, writeValue, marshallingOf, hseq, hpayload]
    rfl
  obtain ⟨b, x, hb, hyields, rfl, -, -, -, hagain⟩ :=
    hround (marshallingOf .none) BuiltIn packetHost (packetOf 5 1 [1, 2] 3) none none [] _
      (marshallingOf_readsBack _) isInstance_packet (fits_packet hseq hpayload) hwrites
  rw [List.nil_append] at hb
  subst hb
  exact ⟨type, _, hplan, hwrites, hyields, (congrFun hagain []).trans hwrites⟩

end CodecForge.Eval
