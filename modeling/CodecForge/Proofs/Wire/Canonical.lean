import CodecForge.Proofs.Wire.Local

/-!
# Every value has one form

Where no maps are concerned, whatever bytes a decoder makes a value of are the form of this value:
the encoder writes them again, and no other bytes are read as the value.
-/

namespace CodecForge.Wire

variable (codecs : Codecs)

/-- The value is one of the type that can be written, and the bytes are its form. -/
structure IsForm (t : WireType) (v : Value) (b : Bytes) : Prop where
  hasType : HasType t v
  fits : ∀ n ∈ lengths t v, n < UInt32.size
  bytes : b = form t v

/-! ### Elements and parts -/

/-- As many values are read as were asked for, each of bytes of its own. -/
theorem takes_decodeMany {α : Type} {read : Reader α} {P : α → Bytes → Prop}
    (h : Reader.Takes read P) (n : Nat) :
    Reader.Takes (decodeMany read n) fun l b =>
      l.length = n ∧ ∃ bs, List.Forall₂ P l bs ∧ b = bs.flatten := by
  induction n with
  | zero => exact Reader.takes_pure ⟨rfl, [], .nil, rfl⟩
  | succ n ih =>
    refine h.bind fun a b hab => ih.map ?_
    rintro l _ ⟨hlength, bs, hbs, rfl⟩
    exact ⟨by rw [List.length_cons, hlength], b :: bs, .cons hab hbs, rfl⟩

theorem isForm_elements {t : WireType} {l : List Value} {bs : List Bytes}
    (h : List.Forall₂ (IsForm t) l bs) :
    (∀ v ∈ l, HasType t v) ∧ (∀ n ∈ l.flatMap (lengths t), n < UInt32.size) ∧
      bs.flatten = l.flatMap (form t) := by
  induction h with
  | nil => simp
  | cons hv _ ih =>
    simp only [List.forall_mem_cons, List.flatMap_cons, List.forall_mem_append, List.flatten_cons]
    exact ⟨⟨hv.hasType, ih.1⟩, ⟨hv.fits, ih.2.1⟩, by rw [hv.bytes, ih.2.2]⟩

theorem takes_decodeTuple {ts : List WireType}
    (h : ∀ t ∈ ts, Reader.Takes (decode codecs t) (IsForm t)) :
    Reader.Takes (decodeTuple codecs ts) fun vs b => IsForm (.tuple ts) (.list vs) b := by
  induction ts with
  | nil => exact Reader.takes_pure ⟨.noParts, by simp [lengths, lengthsOfParts], rfl⟩
  | cons t ts ih =>
    rw [List.forall_mem_cons] at h
    refine h.1.bind fun v b hv => (ih h.2).map fun vs c hvs => ?_
    refine ⟨.part hv.hasType hvs.hasType, ?_, by rw [hv.bytes, hvs.bytes]; rfl⟩
    exact List.forall_mem_append.2 ⟨hv.fits, hvs.fits⟩

/-! ### Decoders -/

/-- The decoder of a type without maps takes the form of the value that it makes. -/
theorem takes_decode {t : WireType} (ht : t.BuiltIn False) :
    Reader.Takes (decode codecs t) (IsForm t) := by
  induction ht with
  | bool =>
    refine Reader.takes_bool.map fun x b hb => ?_
    exact ⟨.bool x, by simp [lengths], hb⟩
  | integer signed w =>
    refine (Reader.takes_integer signed w).map fun n b hb => ?_
    exact ⟨.integer hb.1, by simp [lengths], hb.2⟩
  | float w =>
    refine (Reader.takes_bits w).map fun n b hb => ?_
    exact ⟨.float hb.1, by simp [lengths], hb.2⟩
  | text =>
    refine Reader.takes_text.map fun s b hb => ?_
    exact ⟨.text s, by simpa [lengths] using hb.1, hb.2⟩
  | empty => exact Reader.takes_pure ⟨.empty, by simp [lengths], rfl⟩
  | list _ ih =>
    refine Reader.takes_count.bind ?_
    rintro n _ ⟨hn, rfl⟩
    refine (takes_decodeMany ih n).map ?_
    rintro l _ ⟨rfl, bs, hbs, rfl⟩
    obtain ⟨htypes, hfits, hbytes⟩ := isForm_elements hbs
    exact ⟨.list htypes, List.forall_mem_cons.2 ⟨hn, hfits⟩, by rw [hbytes]; rfl⟩
  | array n _ ih =>
    refine (takes_decodeMany ih n).bind ?_
    rintro l _ ⟨rfl, bs, hbs, rfl⟩
    obtain ⟨htypes, hfits, hbytes⟩ := isForm_elements hbs
    rw [asArray, if_pos rfl]
    exact Reader.takes_pure ⟨.array rfl htypes, hfits, by rw [List.append_nil, hbytes]; rfl⟩
  | option _ ih =>
    refine Reader.takes_bool.bind ?_
    rintro present _ rfl
    cases present with
    | true => exact ih.map fun v b hv => ⟨.present hv.hasType, hv.fits, by rw [hv.bytes]; rfl⟩
    | false => exact Reader.takes_pure ⟨.absent _, by simp [lengths], rfl⟩
  | boxed _ ih => exact ih.mono fun v b hv => ⟨.boxed hv.hasType, hv.fits, hv.bytes⟩
  | tuple _ ih => exact (takes_decodeTuple codecs ih).map fun vs b hvs => hvs
  | orderedMap hmaps => exact hmaps.elim
  | hashMap hmaps => exact hmaps.elim

/-- Of a built-in type without maps, whatever bytes are read as a value are written for it, and
different byte strings that are read to the end are different values. -/
theorem marshal_canonical {t : WireType} (ht : t.BuiltIn False) :
    (∀ i v i', decode codecs t i = .ok v i' →
      ∃ n, i' = i.advance n ∧ (i.next n).length = n ∧
        ∀ p, encode codecs t v p = .ok () (p ++ i.next n)) ∧
    ∀ s s' v, decode codecs t ⟨s, 0⟩ = .ok v ⟨s, s.length⟩ →
      decode codecs t ⟨s', 0⟩ = .ok v ⟨s', s'.length⟩ → s = s' := by
  have hform : ∀ i v i', decode codecs t i = .ok v i' →
      i' = i.advance (form t v).length ∧ i.next (form t v).length = form t v ∧
        ∀ p, encode codecs t v p = .ok () (p ++ form t v) := by
    intro i v i' h
    obtain ⟨b, hb, hi', hv⟩ := takes_decode codecs ht i v i' h
    rw [← hv.bytes]
    refine ⟨hi', Input.next_eq_of_prefix hb, fun p => ?_⟩
    rw [hv.bytes]
    exact (emits_encode codecs hv.hasType).appends hv.fits p
  have hwhole : ∀ s v, decode codecs t ⟨s, 0⟩ = .ok v ⟨s, s.length⟩ → s = form t v := by
    intro s v h
    obtain ⟨hend, hnext, -⟩ := hform _ _ _ h
    have hlength : s.length = (form t v).length := by simpa [Input.advance] using hend
    rw [← hlength] at hnext
    simpa [Input.next] using hnext
  constructor
  · intro i v i' h
    obtain ⟨hi', hnext, hwrites⟩ := hform i v i' h
    exact ⟨_, hi', by rw [hnext], fun p => by rw [hnext, hwrites p]⟩
  · intro s s' v h h'
    rw [hwhole s v h, hwhole s' v h']

/-- A list of texts that may be absent, behind other bytes and before more. -/
theorem marshal_canonical_texts :
    decode .none (.list (.option .text)) ⟨[7, 2, 0, 0, 0, 0, 1, 2, 0, 0, 0, 195, 169, 8], 1⟩ =
      .ok (.list [.option none, .option (some (.text "é"))])
        ⟨[7, 2, 0, 0, 0, 0, 1, 2, 0, 0, 0, 195, 169, 8], 13⟩ ∧
    encode .none (.list (.option .text)) (.list [.option none, .option (some (.text "é"))]) [] =
      .ok () [2, 0, 0, 0, 0, 1, 2, 0, 0, 0, 195, 169] := by
  have h : decode .none (.list (.option .text))
        ⟨[7, 2, 0, 0, 0, 0, 1, 2, 0, 0, 0, 195, 169, 8], 1⟩ =
      .ok (.list [.option none, .option (some (.text "é"))])
        ⟨[7, 2, 0, 0, 0, 0, 1, 2, 0, 0, 0, 195, 169, 8], 13⟩ := by
    rfl
  obtain ⟨n, hn, -, hwrites⟩ := (marshal_canonical .none (.list (.option .text))).1 _ _ _ h
  obtain rfl : n = 12 := by
    have hoffset := congrArg Input.offset hn
    simp only [Input.advance] at hoffset
    omega
  exact ⟨h, hwrites []⟩

end CodecForge.Wire
