import CodecForge.Proofs.Wire.Local

/-!
# Decoding any bytes

What a decoder does with bytes that nobody vouches for.  It ends behind the place where it began and
within the buffer, whether it makes a value or fails; and if it fails, then for want of bytes, at a
byte that is no truth value, or at a text that is not in UTF-8.  `Reader.Safe` says this of a
reader, and is closed under sequencing.
-/

namespace CodecForge.Wire

/-! ### Where readers go and why they fail -/

/-- The second is the same buffer, read as far or further, and at most to its end. -/
structure Input.LeadsTo (i i' : Input) : Prop where
  buffer_eq : i'.buffer = i.buffer
  offset_le : i.offset ≤ i'.offset
  offset_le_length : i'.offset ≤ i.buffer.length

/-- Why a decoder that begins at the input fails.  Each reason names a place that is not in front of
the input and not behind the end of its buffer. -/
inductive DecodeFault (i : Input) : CodecError → Prop
  /-- There are fewer bytes than are to be read. -/
  | endOfBuffer {offset : Nat} (hstart : i.offset ≤ offset) (hend : offset ≤ i.buffer.length) :
      DecodeFault i (.readFailed offset .endOfBuffer)
  /-- The length at the place announces more bytes than there are behind it. -/
  | lengthBeyondEnd {offset n : Nat} (hstart : i.offset ≤ offset)
      (hbytes : Writer.lengthBytes n <+: i.buffer.drop offset)
      (hbeyond : i.buffer.length < offset + 4 + n) :
      DecodeFault i (.readFailed offset (.lengthBeyondEnd n))
  /-- The byte at the place stands for a truth value and is neither 0 nor 1. -/
  | boolByte {offset : Nat} {byte : UInt8} (hstart : i.offset ≤ offset)
      (hbyte : i.buffer[offset]? = some byte) (hbeyond : 1 < byte) :
      DecodeFault i (.invalidData (.boolByte byte offset))
  /-- The bytes behind their length are those of no text. -/
  | text {offset : Nat} {data : Bytes} {fault : Utf8Fault} (hstart : i.offset ≤ offset)
      (hbytes : Writer.lengthBytes data.length ++ data <+: i.buffer.drop offset)
      (hnone : ∀ s, encodeUtf8 s ≠ data) (hfault : decodeUtf8 data = .error fault) :
      DecodeFault i (.invalidData (.text fault))

section Places

variable {i i' i'' : Input} {b : Bytes} {e : CodecError}

theorem Input.LeadsTo.refl (hi : i.IsPlaced) : i.LeadsTo i := ⟨rfl, le_rfl, hi.1⟩

theorem Input.LeadsTo.trans (h : i.LeadsTo i') (h' : i'.LeadsTo i'') : i.LeadsTo i'' where
  buffer_eq := h'.buffer_eq.trans h.buffer_eq
  offset_le := h.offset_le.trans h'.offset_le
  offset_le_length := h.buffer_eq ▸ h'.offset_le_length

theorem Input.LeadsTo.isPlaced (h : i.LeadsTo i') (hi : i.IsPlaced) : i'.IsPlaced := by
  rw [Input.IsPlaced, h.buffer_eq]
  exact ⟨h.offset_le_length, hi.2⟩

theorem Input.leadsTo_advance (hi : i.IsPlaced) (hb : b <+: i.rest) :
    i.LeadsTo (i.advance b.length) := by
  have hlength := hb.length_le
  rw [Input.rest, List.length_drop] at hlength
  have hoffset := hi.1
  exact ⟨rfl, Nat.le_add_right _ _, by simp only [Input.advance]; omega⟩

theorem Input.getElem?_of_prefix {byte : UInt8} (h : [byte] <+: i.rest) :
    i.buffer[i.offset]? = some byte := by
  obtain ⟨rest, hrest⟩ := h
  rw [← Nat.add_zero i.offset, ← List.getElem?_drop, ← Input.rest, ← hrest]
  rfl

/-- A reason to fail further on is one to fail. -/
theorem DecodeFault.of_leadsTo (h : i.LeadsTo i') (he : DecodeFault i' e) : DecodeFault i e := by
  have hbuffer := h.buffer_eq
  have hoffset := h.offset_le
  cases he with
  | endOfBuffer hstart hend => exact .endOfBuffer (hoffset.trans hstart) (hbuffer ▸ hend)
  | lengthBeyondEnd hstart hbytes hbeyond =>
    exact .lengthBeyondEnd (hoffset.trans hstart) (hbuffer ▸ hbytes) (hbuffer ▸ hbeyond)
  | boolByte hstart hbyte hbeyond =>
    exact .boolByte (hoffset.trans hstart) (hbuffer ▸ hbyte) hbeyond
  | text hstart hbytes hnone hfault =>
    exact .text (hoffset.trans hstart) (hbuffer ▸ hbytes) hnone hfault

end Places

/-! ### Safe readers -/

namespace Reader

variable {α β : Type} {r : Reader α}

/-- From any place in a buffer, the reader goes on within the buffer, and it fails for one of the
reasons that there are. -/
structure Safe (r : Reader α) : Prop where
  of_ok : ∀ i a i', i.IsPlaced → r i = .ok a i' → i.LeadsTo i'
  of_error : ∀ i e i', i.IsPlaced → r i = .error e i' → i.LeadsTo i' ∧ DecodeFault i e

theorem Takes.leadsTo {P : α → Bytes → Prop} (h : Takes r P) {i i' : Input} {a : α}
    (hi : i.IsPlaced) (hrun : r i = .ok a i') : i.LeadsTo i' := by
  obtain ⟨b, hb, rfl, -⟩ := h i a i' hrun
  exact Input.leadsTo_advance hi hb

theorem safe_pure (a : α) : Safe (pure a) where
  of_ok i a' i' hi hrun := by
    cases hrun
    exact .refl hi
  of_error i e i' hi hrun := nomatch hrun

theorem Safe.bind {f : α → Reader β} (hr : Safe r) (hf : ∀ a, Safe (f a)) : Safe (r >>= f) where
  of_ok i x i'' hi hrun := by
    obtain ⟨a, i', hfirst, hsecond⟩ := exists_of_bind_eq_ok hrun
    have hlead := hr.of_ok i a i' hi hfirst
    exact hlead.trans ((hf a).of_ok i' x i'' (hlead.isPlaced hi) hsecond)
  of_error i e i'' hi hrun := by
    obtain hfirst | ⟨a, i', hfirst, hsecond⟩ := exists_of_bind_eq_error hrun
    · exact hr.of_error i e i'' hi hfirst
    · have hlead := hr.of_ok i a i' hi hfirst
      obtain ⟨hlead', hfault⟩ := (hf a).of_error i' e i'' (hlead.isPlaced hi) hsecond
      exact ⟨hlead.trans hlead', hfault.of_leadsTo hlead⟩

theorem Safe.map (hr : Safe r) (f : α → β) : Safe (do return f (← r)) :=
  hr.bind fun a => safe_pure (f a)

/-! ### Numbers and texts -/

theorem safe_bytes (n : Nat) : Safe (bytes n) where
  of_ok _ _ _ hi hrun := (takes_bytes n).leadsTo hi hrun
  of_error i e i' hi hrun := by
    rw [bytes_apply] at hrun
    split at hrun
    · cases hrun
    · cases hrun
      exact ⟨.refl hi, .endOfBuffer le_rfl hi.1⟩

theorem safe_bits (w : Width) : Safe (bits w) := (safe_bytes w.bytes).map ofLittleEndian

theorem safe_integer (signed : Bool) (w : Width) : Safe (integer signed w) :=
  (safe_bits w).map (intOfBits signed w)

theorem safe_count : Safe count := safe_bits .w32

/-- The byte that is refused has been read. -/
theorem safe_bool : Safe bool where
  of_ok _ _ _ hi hrun := takes_bool.leadsTo hi hrun
  of_error i e i'' hi hrun := by
    unfold bool at hrun
    rw [get_bind] at hrun
    obtain hbits | ⟨n, i', hbits, hrun⟩ := exists_of_bind_eq_error hrun
    · exact (safe_bits .w8).of_error i e i'' hi hbits
    obtain ⟨b, hb, rfl, hn, rfl⟩ := takes_bits .w8 i n i' hbits
    have hlead := Input.leadsTo_advance hi hb
    match n, hrun with
    | n + 2, hrun =>
      cases hrun
      have hmod : (n + 2) % 256 = n + 2 := Nat.mod_eq_of_lt hn
      simp only [Width.bytes, littleEndian, hmod] at hb
      refine ⟨hlead, .boolByte le_rfl (Input.getElem?_of_prefix hb) ?_⟩
      have hbyte : (UInt8.ofNat (n + 2)).toNat = n + 2 := UInt8.toNat_ofNat_of_lt' hn
      rw [UInt8.lt_iff_toNat_lt, hbyte]
      exact Nat.lt_add_left n (by decide)

/-- A length that is refused has been read. -/
theorem safe_length : Safe length where
  of_ok _ _ _ hi hrun := takes_length.leadsTo hi hrun
  of_error i e i'' hi hrun := by
    unfold length at hrun
    rw [get_bind] at hrun
    obtain hbits | ⟨n, i', hbits, hrun⟩ := exists_of_bind_eq_error hrun
    · exact (safe_bits .w32).of_error i e i'' hi hbits
    obtain ⟨b, hb, rfl, hn, rfl⟩ := takes_bits .w32 i n i' hbits
    have hlead := Input.leadsTo_advance hi hb
    have hend := hlead.offset_le_length
    rw [get_bind] at hrun
    split at hrun
    · next hbeyond =>
      cases hrun
      refine ⟨hlead, .lengthBeyondEnd le_rfl hb ?_⟩
      simp only [Input.remaining, Input.advance, length_littleEndian, Width.bytes] at hbeyond hend
      omega
    · cases hrun

/-- The bytes of a text stand behind their number. -/
theorem takes_lengthAndBytes :
    Takes (do bytes (← length)) fun data b => b = Writer.lengthBytes data.length ++ data := by
  refine takes_length.bind ?_
  rintro n b ⟨-, rfl⟩
  refine (takes_bytes n).mono ?_
  rintro data _ ⟨rfl, rfl⟩
  rfl

/-- A text that is refused has been read, with its length. -/
theorem safe_text : Safe text where
  of_ok _ _ _ hi hrun := takes_text.leadsTo hi hrun
  of_error i e i'' hi hrun := by
    obtain hlength | ⟨n, i', hlength, hrun⟩ := exists_of_bind_eq_error hrun
    · exact safe_length.of_error i e i'' hi hlength
    have hlead := safe_length.of_ok i n i' hi hlength
    obtain hbytes | ⟨data, j, hbytes, hrun⟩ := exists_of_bind_eq_error hrun
    · obtain ⟨hlead', hfault⟩ := (safe_bytes n).of_error i' e i'' (hlead.isPlaced hi) hbytes
      exact ⟨hlead.trans hlead', hfault.of_leadsTo hlead⟩
    have hlead' := hlead.trans ((safe_bytes n).of_ok i' data j (hlead.isPlaced hi) hbytes)
    cases hdecode : decodeUtf8 data with
    | ok s =>
      rw [hdecode] at hrun
      cases hrun
    | error fault =>
      rw [hdecode] at hrun
      cases hrun
      have htaken : (do bytes (← length)) i = .ok data i'' := (bind_eq_of_ok hlength _).trans hbytes
      obtain ⟨b, hb, -, rfl⟩ := takes_lengthAndBytes i data i'' htaken
      refine ⟨hlead', .text le_rfl hb (fun s hs => ?_) hdecode⟩
      rw [← hs, decodeUtf8_encodeUtf8] at hdecode
      cases hdecode

theorem safe_decodeMany (hr : Safe r) (n : Nat) : Safe (decodeMany r n) := by
  induction n with
  | zero => exact safe_pure []
  | succ n ih => exact hr.bind fun a => ih.map (a :: ·)

end Reader

/-! ### Decoders -/

section Decode

variable (codecs : Codecs)

theorem safe_decodeTuple {ts : List WireType} (h : ∀ t ∈ ts, Reader.Safe (decode codecs t)) :
    Reader.Safe (decodeTuple codecs ts) := by
  induction ts with
  | nil => exact Reader.safe_pure []
  | cons t ts ih =>
    rw [List.forall_mem_cons] at h
    exact h.1.bind fun v => (ih h.2).map (v :: ·)

theorem safe_entries {k t : WireType} (hk : Reader.Safe (decode codecs k))
    (ht : Reader.Safe (decode codecs t)) (n : Nat) :
    Reader.Safe (decodeMany (do return (← decode codecs k, ← decode codecs t)) n) :=
  Reader.safe_decodeMany (hk.bind fun v => ht.map (v, ·)) n

theorem safe_decode {t : WireType} (ht : t.BuiltIn True) : Reader.Safe (decode codecs t) := by
  induction ht with
  | bool => exact Reader.safe_bool.map Value.bool
  | integer signed w => exact (Reader.safe_integer signed w).map Value.integer
  | float w => exact (Reader.safe_bits w).map Value.float
  | text => exact Reader.safe_text.map Value.text
  | empty => exact Reader.safe_pure _
  | list _ ih =>
    exact Reader.safe_count.bind fun n => (Reader.safe_decodeMany ih n).map Value.list
  | array n _ ih =>
    rw [decode_array]
    exact (Reader.safe_decodeMany ih n).map Value.list
  | option _ ih =>
    refine Reader.safe_bool.bind fun present => ?_
    cases present with
    | true => exact ih.map fun v => Value.option (some v)
    | false => exact Reader.safe_pure _
  | boxed _ ih => exact ih
  | tuple _ ih => exact (safe_decodeTuple codecs ih).map Value.list
  | orderedMap _ _ _ ihk ih =>
    exact Reader.safe_count.bind fun n =>
      (safe_entries codecs ihk ih n).map fun es => Value.map (Value.sortedMap es)
  | hashMap _ _ _ ihk ih =>
    exact Reader.safe_count.bind fun n =>
      (safe_entries codecs ihk ih n).map fun es => Value.map (Value.hashedMap es)

/-- Whatever bytes a decoder of a built-in type is given, and wherever it begins, it ends within the
buffer, not in front of where it began, and either makes a value or fails for one of the reasons
that there are.  That an array has the wrong number of elements is none of them. -/
theorem marshal_safe {t : WireType} (ht : t.BuiltIn True) {i : Input} (hi : i.IsPlaced) :
    (∃ v i', decode codecs t i = .ok v i' ∧ i.LeadsTo i') ∨
      ∃ e i', decode codecs t i = .error e i' ∧ i.LeadsTo i' ∧ DecodeFault i e ∧
        ∀ expected decoded, e ≠ .invalidData (.arrayLength expected decoded) := by
  have hsafe := safe_decode codecs ht
  cases hrun : decode codecs t i with
  | ok v i' => exact .inl ⟨v, i', rfl, hsafe.of_ok i v i' hi hrun⟩
  | error e i' =>
    obtain ⟨hlead, hfault⟩ := hsafe.of_error i e i' hi hrun
    refine .inr ⟨e, i', rfl, hlead, hfault, ?_⟩
    rintro expected decoded rfl
    cases hfault

/-- An array of two texts, of which the second is not in UTF-8. -/
theorem marshal_safe_texts :
    decode .none (.array .text 2) ⟨[7, 1, 0, 0, 0, 97, 2, 0, 0, 0, 195, 40], 1⟩ =
      .error (.invalidData (.text ⟨0, some 1⟩)) ⟨[7, 1, 0, 0, 0, 97, 2, 0, 0, 0, 195, 40], 12⟩ ∧
    Input.LeadsTo ⟨[7, 1, 0, 0, 0, 97, 2, 0, 0, 0, 195, 40], 1⟩
      ⟨[7, 1, 0, 0, 0, 97, 2, 0, 0, 0, 195, 40], 12⟩ ∧
    DecodeFault ⟨[7, 1, 0, 0, 0, 97, 2, 0, 0, 0, 195, 40], 1⟩
      (.invalidData (.text ⟨0, some 1⟩)) := by
  have hrun : decode .none (.array .text 2) ⟨[7, 1, 0, 0, 0, 97, 2, 0, 0, 0, 195, 40], 1⟩ =
      .error (.invalidData (.text ⟨0, some 1⟩))
        ⟨[7, 1, 0, 0, 0, 97, 2, 0, 0, 0, 195, 40], 12⟩ := by
    rfl
  obtain ⟨v, i', hvalue, -⟩ | ⟨e, i', herror, hlead, hfault, -⟩ :=
    marshal_safe .none (.array 2 .text) (i := ⟨[7, 1, 0, 0, 0, 97, 2, 0, 0, 0, 195, 40], 1⟩)
      (by decide)
  · cases hrun.symm.trans hvalue
  · cases hrun.symm.trans herror
    exact ⟨hrun, hlead, hfault⟩

end Decode

end CodecForge.Wire
