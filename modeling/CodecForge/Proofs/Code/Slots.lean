import CodecForge.Proofs.Eval.Instantiator

/-!
# Slots of codecs

A codec that calls a function to make the value holds one slot for each value that is read by its
offset, with the path and the declared type of that value.  The name of a slot keeps only the stem
of the name of its parameter, which is what stands behind the underscores in front: two slots have
one name exactly if their parameters have one stem, and there is no name for a slot exactly if the
stem begins with a character that no identifier begins with.
-/

namespace CodecForge.Code

open CodecForge.Schema CodecForge.Source CodecForge.Plan CodecForge.Eval

/-! ### Stems of names -/

/-- A name without the underscores in front of it. -/
def stem (name : String) : String := String.ofList (name.toList.dropWhile (· == '_'))

/-- The stem of the parameter that a value travels for. -/
def stemOf (f : WireField) : String := stem (Ident.bare ⟨f.name⟩)

/-- The local name of a parameter adds underscores, which the name of a slot drops with all
others. -/
theorem slotText_argumentBinding (name : Ident) :
    slotText (argumentBinding name) = stem name.bare ++ "_offset" := by
  have hmarks : ("__" ++ name.bare).toList = '_' :: '_' :: name.bare.toList := by
    rw [String.toList_append]
    rfl
  rw [slotText, argumentBinding_text, hmarks]
  rfl

theorem slotText_of_plan {d : TypeDecl} {plan : InstantiatorPlan}
    (hplan : planInstantiator d = .ok plan) {f : WireField} (hf : f ∈ plan.wire) :
    slotText f.binding = stemOf f ++ "_offset" := by
  obtain ⟨p, -, -, hpf⟩ := exists_param_of_wire hplan hf
  rw [binding_of_planArgument hpf, slotText_argumentBinding, stemOf, name_of_planArgument hpf]

/-! ### What a value needs -/

/-- The value is read by its offset. -/
def isOffset (f : WireField) : Bool :=
  match f.reach with
  | .rawOffset _ _ _ => true
  | _ => false

/-- The slot for a value, if it is read by its offset. -/
def slotOf? (f : WireField) : Option Slot :=
  match f.reach with
  | .rawOffset declaring path type => some ⟨⟨slotText f.binding⟩, type, path, declaring, f.name⟩
  | _ => none

/-- The statement that borrows a value, with the one before it if there is one. -/
def borrowSteps (f : WireField) : List EncodeStep :=
  match f.reach with
  | .getter method => [.call f.binding method, .borrow f.binding f.type]
  | .publicField path => [.borrowField f.binding f.type path]
  | .rawOffset _ _ type => [.borrowSlot f.binding type ⟨slotText f.binding⟩]

/-- The statements that borrow a value and write it. -/
def fieldSteps (f : WireField) : List EncodeStep :=
  borrowSteps f ++ [.write (Transfer.of f.kind) f.type f.binding]

/-- The value needs a slot, but what that would be called is no identifier. -/
def lacksName (f : WireField) : Bool :=
  isOffset f && !(slotText f.binding).toList.head?.any Text.isIdentStart

/-- A value has its statements and its slot, unless it needs one that cannot be named. -/
theorem encodeField_eq (f : WireField) :
    encodeField f =
      if lacksName f then .error ⟨slotText f.binding⟩ else .ok (fieldSteps f, slotOf? f) := by
  cases hreach : f.reach with
  | getter method =>
    simp only [encodeField, lacksName, isOffset, fieldSteps, borrowSteps, slotOf?, hreach]
    rfl
  | publicField path =>
    simp only [encodeField, lacksName, isOffset, fieldSteps, borrowSteps, slotOf?, hreach]
    rfl
  | rawOffset declaring path type =>
    simp only [encodeField, slotName, lacksName, isOffset, fieldSteps, borrowSteps, slotOf?, hreach]
    cases (slotText f.binding).toList.head?.any Text.isIdentStart <;> rfl

theorem borrowSlot_mem_fieldSteps_iff {f : WireField} {binding name : Ident} {type : Ty} :
    EncodeStep.borrowSlot binding type name ∈ fieldSteps f ↔
      ∃ s, slotOf? f = some s ∧ binding = f.binding ∧ type = s.type ∧ name = s.name := by
  cases hreach : f.reach <;> simp [fieldSteps, borrowSteps, slotOf?, hreach]

/-! ### The slots of a codec -/

/-- The name stands for the slot and for no other. -/
def Denotes (slots : List Slot) (name : Ident) (s : Slot) : Prop :=
  (slots.filter fun s' => s'.name == name) = [s]

section Unit

variable {type : Path} {plan : InstantiatorPlan} {unit : CodecUnit}

theorem ofInstantiator_fields (h : ofInstantiator type plan = .ok unit) :
    unitSlots unit = plan.wire.filterMap slotOf? ∧
      unit.encode = .steps (plan.wire.flatMap fieldSteps) := by
  obtain ⟨⟨parts, hparts, hslots, hencode⟩, -⟩ := ofInstantiator_ok h
  have hpart : ∀ f part, encodeField f = .ok part → (fieldSteps f, slotOf? f) = part := by
    intro f part hf
    rw [encodeField_eq] at hf
    split at hf
    · cases hf
    · exact Except.ok.inj hf
  have hall : plan.wire.map (fun f => (fieldSteps f, slotOf? f)) = parts.map id :=
    map_eq_map_of_forall₂ (hparts.imp hpart)
  rw [List.map_id] at hall
  rw [hslots, hencode, ← hall, List.filterMap_map, List.flatMap_map]
  exact ⟨rfl, rfl⟩

end Unit

section Names

variable {wire : List WireField}

theorem slotNames_eq :
    (wire.filterMap slotOf?).map Slot.name =
      (wire.filter isOffset).map fun f => ⟨slotText f.binding⟩ := by
  induction wire with
  | nil => rfl
  | cons f wire ih =>
    cases hreach : f.reach <;> simp [isOffset, slotOf?, hreach, ih]

/-- Slots have distinct names exactly if the parameters that they are for have distinct stems. -/
theorem nodup_slotNames_iff
    (hwire : ∀ f ∈ wire, slotText f.binding = stemOf f ++ "_offset") :
    ((wire.filterMap slotOf?).map Slot.name).Nodup ↔
      ((wire.filter isOffset).map stemOf).Nodup := by
  have hnames : (wire.filterMap slotOf?).map Slot.name =
      ((wire.filter isOffset).map stemOf).map fun name => ⟨name ++ "_offset"⟩ := by
    rw [slotNames_eq, List.map_map]
    refine List.map_congr_left fun f hf => ?_
    rw [hwire f (List.mem_of_mem_filter hf)]
    rfl
  have hinjective : Function.Injective fun name : String => (⟨name ++ "_offset"⟩ : Ident) := by
    intro name name' heq
    exact (String.append_left_inj _).1 (congrArg Ident.text heq)
  rw [hnames, List.nodup_map_iff hinjective]

end Names

/-- The stems of the parameters that slots are for. -/
def offsetStems (d : TypeDecl) : Option (List String) :=
  (planInstantiator d).toOption.map fun plan => (plan.wire.filter isOffset).map stemOf

theorem offsetStems_of_plan {d : TypeDecl} {plan : InstantiatorPlan}
    (hplan : planInstantiator d = .ok plan) :
    offsetStems d = some ((plan.wire.filter isOffset).map stemOf) := by
  rw [offsetStems, hplan]
  rfl

/-! ### Generated codecs -/

/-- The structure that is generated holds one slot for each value that is read by its offset, with
the path and the declared type of that value, and a statement of the encoder refers to a slot
exactly to read the value that the slot is for.  The slots have distinct names exactly if the
parameters that they are for have distinct stems, and then each name stands for its own slot. -/
theorem slots_of_generate {g : Generator} {d : TypeDecl} {gen : Generated}
    (hg : g.generate d .instantiator = .ok gen) :
    ∃ (frame : Frame) (plan : InstantiatorPlan) (unit : CodecUnit) (steps : List EncodeStep),
      planInstantiator d = .ok plan ∧ ofInstantiator frame.type plan = .ok unit ∧
      gen.tokens = frame.tokens unit ∧ gen.encode = frame.encodeTokens unit ∧
      unit.encode = .steps steps ∧
      unitSlots unit = plan.wire.filterMap slotOf? ∧
      (∀ binding type name, EncodeStep.borrowSlot binding type name ∈ steps ↔
        ∃ f ∈ plan.wire, ∃ s, slotOf? f = some s ∧
          binding = f.binding ∧ type = s.type ∧ name = s.name) ∧
      (((unitSlots unit).map Slot.name).Nodup ↔
        ((plan.wire.filter isOffset).map stemOf).Nodup) ∧
      (((plan.wire.filter isOffset).map stemOf).Nodup →
        ∀ s ∈ unitSlots unit, Denotes (unitSlots unit) s.name s) := by
  obtain ⟨frame, plan, unit, -, hplan, hunit, -, -, hencode, -, htokens⟩ :=
    exists_frame_of_generate hg
  obtain ⟨hslots, hsteps⟩ := ofInstantiator_fields hunit
  have hnames : ((unitSlots unit).map Slot.name).Nodup ↔
      ((plan.wire.filter isOffset).map stemOf).Nodup := by
    rw [hslots]
    exact nodup_slotNames_iff fun f hf => slotText_of_plan hplan hf
  refine ⟨frame, plan, unit, _, hplan, hunit, htokens, hencode, hsteps, hslots, ?_, hnames, ?_⟩
  · intro binding type name
    simp only [List.mem_flatMap, borrowSlot_mem_fieldSteps_iff]
  · intro hstems s hs
    exact filter_key_eq_singleton (hnames.2 hstems) hs

/-- Two private fields whose names have one stem. -/
def oneStem : TypeDecl where
  name := "Pair"
  fields := [{ name := "a", type := "u8" }, { name := "_a", type := "u16" }]

/-- Two private fields with names of different stems, and one that needs no slot. -/
def twoStems : TypeDecl where
  name := "Trio"
  fields := [{ name := "a", type := "u8" }, { name := "open", type := "bool", isPublic := true },
    { name := "_b", type := "u16" }]

theorem slots_of_generate_stems :
    (∃ type plan unit, planInstantiator oneStem = .ok plan ∧ ofInstantiator type plan = .ok unit ∧
      ¬ ((unitSlots unit).map Slot.name).Nodup) ∧
    ∃ type plan unit, planInstantiator twoStems = .ok plan ∧ ofInstantiator type plan = .ok unit ∧
      ((unitSlots unit).map Slot.name).Nodup ∧
      ∀ s ∈ unitSlots unit, Denotes (unitSlots unit) s.name s := by
  constructor
  · obtain ⟨gen, hg⟩ : ∃ gen,
        (Generator.ofRuntime defaultRuntime).generate oneStem .instantiator = .ok gen :=
      exists_of_isOk (by decide +kernel)
    obtain ⟨frame, plan, unit, -, hplan, hunit, -, -, -, -, -, hnames, -⟩ := slots_of_generate hg
    have hstems : offsetStems oneStem = some ["a", "a"] := by decide +kernel
    rw [offsetStems_of_plan hplan, Option.some.injEq] at hstems
    refine ⟨frame.type, plan, unit, hplan, hunit, ?_⟩
    rw [hnames, hstems]
    decide
  · obtain ⟨gen, hg⟩ : ∃ gen,
        (Generator.ofRuntime defaultRuntime).generate twoStems .instantiator = .ok gen :=
      exists_of_isOk (by decide +kernel)
    obtain ⟨frame, plan, unit, -, hplan, hunit, -, -, -, -, -, hnames, hdenotes⟩ :=
      slots_of_generate hg
    have hstems : offsetStems twoStems = some ["a", "b"] := by decide +kernel
    rw [offsetStems_of_plan hplan, Option.some.injEq] at hstems
    have hdistinct : ((plan.wire.filter isOffset).map stemOf).Nodup := by
      rw [hstems]
      decide
    exact ⟨frame.type, plan, unit, hplan, hunit, hnames.2 hdistinct, hdenotes hdistinct⟩

end CodecForge.Code
