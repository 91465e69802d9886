import CodecForge.Proofs.Wire.RoundTrip

/-!
# Forms that are cut short

A buffer that ends within the form of a value is told from one that holds another value: the decoder
fails for want of bytes, wherever the form is cut.  `Reader.Starves` says this of a reader and the
bytes it needs, and is closed under sequencing.
-/

namespace CodecForge.Wire

/-! ### Prefixes -/

/-- The first bytes of others, but not all of them. -/
def CutOf (s b : Bytes) : Prop := s <+: b ∧ s ≠ b

instance (s b : Bytes) : Decidable (CutOf s b) := inferInstanceAs (Decidable (_ ∧ _))

theorem CutOf.length_lt {s b : Bytes} (h : CutOf s b) : s.length < b.length :=
  lt_of_le_of_ne h.1.length_le fun hlength => h.2 (h.1.eq_of_length hlength)

/-- Bytes are cut in their first part or behind it. -/
theorem cutOf_append {s b c : Bytes} (h : CutOf s (b ++ c)) :
    CutOf s b ∨ ∃ s', s = b ++ s' ∧ CutOf s' c := by
  rcases List.prefix_or_prefix_of_prefix h.1 (List.prefix_append b c) with hs | ⟨s', rfl⟩
  · by_cases hall : s = b
    · subst hall
      refine .inr ⟨[], (List.append_nil s).symm, List.nil_prefix, fun hc => h.2 ?_⟩
      rw [← hc, List.append_nil]
    · exact .inl ⟨hs, hall⟩
  · refine .inr ⟨s', rfl, (List.prefix_append_right_inj b).1 h.1, fun hc => h.2 ?_⟩
    rw [hc]

/-! ### Readers without enough bytes -/

namespace Reader

variable {α β : Type} {r : Reader α}

/-- Where a buffer ends within the bytes, the reader fails for want of more. -/
def Starves (r : Reader α) (b : Bytes) : Prop :=
  ∀ before s : Bytes, CutOf s b → (before ++ s).length < UInt64.size →
    ∃ offset reason i', r ⟨before ++ s, before.length⟩ = .error (.readFailed offset reason) i'

theorem starves_nil : Starves r [] := fun _ _ hs => absurd (List.prefix_nil.1 hs.1) hs.2

theorem Starves.bind {f : α → Reader β} {b c : Bytes} {a : α} (hr : Starves r b)
    (hyields : Yields r b a) (hf : Starves (f a) c) : Starves (r >>= f) (b ++ c) := by
  intro before s hs hlength
  rcases cutOf_append hs with hcut | ⟨s', rfl, hcut⟩
  · obtain ⟨offset, reason, i', hfail⟩ := hr before s hcut hlength
    exact ⟨offset, reason, i', bind_eq_of_error hfail f⟩
  · have hfirst := hyields before s' hlength
    have hsecond := hf (before ++ b) s' hcut (by rwa [List.append_assoc])
    rw [List.append_assoc, List.length_append] at hsecond
    rw [bind_eq_of_ok hfirst]
    exact hsecond

theorem Starves.map {b : Bytes} (hr : Starves r b) (f : α → β) :
    Starves (do return f (← r)) b := by
  intro before s hs hlength
  obtain ⟨offset, reason, i', hfail⟩ := hr before s hs hlength
  exact ⟨offset, reason, i', bind_eq_of_error hfail _⟩

theorem Starves.of_map {f : α → β} {b : Bytes} (hr : Starves (do return f (← r)) b) :
    Starves r b := by
  intro before s hs hlength
  obtain ⟨offset, reason, i', hfail⟩ := hr before s hs hlength
  cases hrun : r ⟨before ++ s, before.length⟩ with
  | ok a j =>
    rw [bind_eq_of_ok hrun] at hfail
    cases hfail
  | error e j =>
    rw [bind_eq_of_error hrun] at hfail
    cases hfail
    exact ⟨offset, reason, i', rfl⟩

/-! ### Numbers and texts -/

theorem starves_bytes (b : Bytes) : Starves (bytes b.length) b := by
  intro before s hs hlength
  have hroom : ¬ before.length + b.length ≤ (before ++ s).length := by
    have := hs.length_lt
    rw [List.length_append]
    omega
  refine ⟨before.length, .endOfBuffer, ⟨before ++ s, before.length⟩, ?_⟩
  rw [bytes_apply, if_neg (by simp only [hroom, decide_false, Bool.and_false, Bool.false_eq_true,
    not_false_eq_true])]

theorem starves_bits {w : Width} {b : Bytes} (h : b.length = w.bytes) : Starves (bits w) b := by
  have hbytes := (starves_bytes b).map ofLittleEndian
  rwa [h] at hbytes

theorem starves_count (n : Nat) : Starves count (Writer.lengthBytes n) :=
  starves_bits (w := .w32) (length_littleEndian 4 n)

theorem starves_bool (x : Bool) : Starves bool [if x then 1 else 0] := by
  intro before s hs hlength
  obtain ⟨offset, reason, i', hfail⟩ :=
    starves_bits (w := .w8) (b := [if x then 1 else 0]) rfl before s hs hlength
  refine ⟨offset, reason, i', ?_⟩
  unfold bool
  rw [get_bind, bind_eq_of_error hfail]

/-- A length that announces more bytes than there are is refused at once. -/
theorem starves_text {data : Bytes} (hdata : data.length < UInt32.size) :
    Starves text (Writer.lengthBytes data.length ++ data) := by
  intro before s hs hlength
  suffices hfail : ∃ offset reason i',
      length ⟨before ++ s, before.length⟩ = .error (.readFailed offset reason) i' by
    obtain ⟨offset, reason, i', hfail⟩ := hfail
    exact ⟨offset, reason, i', bind_eq_of_error hfail _⟩
  -- the cut is in the length, or behind it, where the length tells that bytes are wanting
  rcases cutOf_append hs with hcut | ⟨s', rfl, hcut⟩
  · obtain ⟨offset, reason, i', hfail⟩ := starves_count data.length before s hcut hlength
    have hbits : bits .w32 ⟨before ++ s, before.length⟩ = .error (.readFailed offset reason) i' :=
      hfail
    refine ⟨offset, reason, i', ?_⟩
    unfold length
    rw [get_bind, bind_eq_of_error hbits]
  · have hbits : bits .w32 ⟨before ++ (Writer.lengthBytes data.length ++ s'), before.length⟩ =
        .ok data.length
          ⟨before ++ (Writer.lengthBytes data.length ++ s'), before.length + 4⟩ :=
      yields_count hdata before s' hlength
    have hbeyond : data.length > Input.remaining
        ⟨before ++ (Writer.lengthBytes data.length ++ s'), before.length + 4⟩ := by
      have := hcut.length_lt
      simp [Input.remaining, Writer.lengthBytes]
      omega
    refine ⟨before.length, .lengthBeyondEnd data.length,
      ⟨before ++ (Writer.lengthBytes data.length ++ s'), before.length + 4⟩, ?_⟩
    unfold length
    rw [get_bind, bind_eq_of_ok hbits, get_bind]
    dsimp only
    rw [if_pos hbeyond]
    rfl

end Reader

/-! ### Decoders -/

section Decode

variable (codecs : Codecs)

theorem starves_decodeMany {α : Type} {read : Reader α} {b : α → Bytes} {l : List α}
    (hyields : ∀ a ∈ l, Reader.Yields read (b a) a) (h : ∀ a ∈ l, Reader.Starves read (b a)) :
    Reader.Starves (decodeMany read l.length) (l.flatMap b) := by
  induction l with
  | nil => exact Reader.starves_nil
  | cons a l ih =>
    rw [List.forall_mem_cons] at hyields h
    exact h.1.bind hyields.1 ((ih hyields.2 h.2).map (a :: ·))

/-- A buffer that ends within an entry of a map ends within its key or within its value. -/
theorem starves_entries {k t : WireType} {entries : List (Value × Value)}
    (hk : ∀ e ∈ entries, HasType k e.1) (ht : ∀ e ∈ entries, HasType t e.2)
    (hfits : ∀ e ∈ entries,
      (∀ n ∈ lengths k e.1, n < UInt32.size) ∧ ∀ n ∈ lengths t e.2, n < UInt32.size)
    (hstarvesk : ∀ e ∈ entries, (∀ n ∈ lengths k e.1, n < UInt32.size) →
      Reader.Starves (decode codecs k) (form k e.1))
    (hstarves : ∀ e ∈ entries, (∀ n ∈ lengths t e.2, n < UInt32.size) →
      Reader.Starves (decode codecs t) (form t e.2)) :
    Reader.Starves (decodeMany (do return (← decode codecs k, ← decode codecs t)) entries.length)
      (entries.flatMap fun e => form k e.1 ++ form t e.2) := by
  refine starves_decodeMany (fun e he => ?_) fun e he => ?_
  · have hkey := yields_decode codecs (hk e he) (hfits e he).1
    have hvalue := yields_decode codecs (ht e he) (hfits e he).2
    exact hkey.bind (hvalue.map (e.1, ·))
  · have hkey := yields_decode codecs (hk e he) (hfits e he).1
    have hvalue := hstarves e he (hfits e he).2
    exact (hstarvesk e he (hfits e he).1).bind hkey (hvalue.map (e.1, ·))

/-- The decoder of a type fails for want of bytes where the form of a value is cut. -/
theorem starves_decode {t : WireType} {v : Value} (hv : HasType t v)
    (hfits : ∀ n ∈ lengths t v, n < UInt32.size) :
    Reader.Starves (decode codecs t) (form t v) := by
  induction hv with
  | bool x => exact (Reader.starves_bool x).map Value.bool
  | integer => exact ((Reader.starves_bits (length_littleEndian _ _)).map _).map Value.integer
  | float => exact (Reader.starves_bits (length_littleEndian _ _)).map Value.float
  | text s => exact (Reader.starves_text (hfits _ List.mem_cons_self)).map Value.text
  | empty => exact Reader.starves_nil
  | list hvs ih =>
    simp only [lengths, List.forall_mem_cons, List.forall_mem_flatMap] at hfits
    have helems := starves_decodeMany
      (fun v hv => yields_decode codecs (hvs v hv) (hfits.2 v hv))
      fun v hv => ih v hv (hfits.2 v hv)
    exact (Reader.starves_count _).bind (Reader.yields_count hfits.1) (helems.map Value.list)
  | @array t n elems hlen hvs ih =>
    simp only [lengths, List.forall_mem_flatMap] at hfits
    subst hlen
    have hyields := yields_decodeMany fun v hv => yields_decode codecs (hvs v hv) (hfits v hv)
    have helems := starves_decodeMany
      (fun v hv => yields_decode codecs (hvs v hv) (hfits v hv)) fun v hv => ih v hv (hfits v hv)
    have harray : Reader.Starves (decode codecs (.array t elems.length))
        (elems.flatMap (form t) ++ []) := helems.bind hyields Reader.starves_nil
    rwa [List.append_nil] at harray
  | absent => exact (Reader.starves_bool false).bind (Reader.yields_bool false) Reader.starves_nil
  | present _ ih =>
    exact (Reader.starves_bool true).bind (Reader.yields_bool true)
      ((ih hfits).map fun v => Value.option (some v))
  | boxed _ ih => exact ih hfits
  | noParts => exact Reader.starves_nil
  | part hv _ ih ihs =>
    simp only [lengths, lengthsOfParts, List.forall_mem_append] at hfits ihs
    have htail := (ihs hfits.2).of_map
    exact ((ih hfits.1).bind (yields_decode codecs hv hfits.1) (htail.map (_ :: ·))).map Value.list
  | orderedMap hk ht _ ihk ih =>
    simp only [lengths, List.forall_mem_cons, List.forall_mem_flatMap,
      List.forall_mem_append] at hfits
    have hentries := starves_entries codecs hk ht hfits.2 ihk ih
    exact (Reader.starves_count _).bind (Reader.yields_count hfits.1)
      (hentries.map fun es => Value.map (Value.sortedMap es))
  | hashMap hk ht _ ihk ih =>
    simp only [lengths, List.forall_mem_cons, List.forall_mem_flatMap,
      List.forall_mem_append] at hfits
    have hentries := starves_entries codecs hk ht hfits.2 ihk ih
    exact (Reader.starves_count _).bind (Reader.yields_count hfits.1)
      (hentries.map fun es => Value.map (Value.hashedMap es))

/-- A buffer that ends within the bytes that a value of a type is written as is not decoded as any
value of the type, nor taken for bytes that are none: the decoder reports a failed read. -/
theorem marshal_truncated {t : WireType} {v : Value} (hv : HasType t v) {p b : Bytes}
    (hwritten : encode codecs t v p = .ok () (p ++ b)) {s : Bytes} (hs : CutOf s b)
    (before : Bytes) (hlength : (before ++ s).length < UInt64.size) :
    ∃ offset reason i',
      decode codecs t ⟨before ++ s, before.length⟩ = .error (.readFailed offset reason) i' := by
  obtain ⟨hfits, heq⟩ := (emits_encode codecs hv).of_eq_ok hwritten
  obtain rfl : b = form t v := List.append_cancel_left heq
  exact starves_decode codecs hv hfits before s hs hlength

/-- A map from numbers to markers and a text behind it, with the last byte of the text missing. -/
theorem marshal_truncated_entries :
    encode .none (.tuple [.orderedMap (.integer false .w16) .empty, .option .text])
        (.list [.map [(.integer 3, .unit), (.integer 513, .unit)], .option (some (.text "ab"))])
        [] =
      .ok () [2, 0, 0, 0, 3, 0, 1, 2, 1, 2, 0, 0, 0, 97, 98] ∧
    ∃ offset reason i',
      decode .none (.tuple [.orderedMap (.integer false .w16) .empty, .option .text])
          ⟨[2, 0, 0, 0, 3, 0, 1, 2, 1, 2, 0, 0, 0, 97], 0⟩ =
        .error (.readFailed offset reason) i' := by
  have hmap : HasType (.orderedMap (.integer false .w16) .empty)
      (.map [(.integer 3, .unit), (.integer 513, .unit)]) := by
    refine .orderedMap ?_ ?_ (by simp [Value.compare]; decide)
    · simp only [List.forall_mem_cons, List.not_mem_nil, IsEmpty.forall_iff, implies_true, and_true]
      exact ⟨.integer (by decide), .integer (by decide)⟩
    · simp only [List.forall_mem_cons, List.not_mem_nil, IsEmpty.forall_iff, implies_true, and_true]
      exact ⟨.empty, .empty⟩
  have hv : HasType (.tuple [.orderedMap (.integer false .w16) .empty, .option .text])
      (.list [.map [(.integer 3, .unit), (.integer 513, .unit)],
        .option (some (.text "ab"))]) :=
    .part hmap (.part (.present (.text "ab")) .noParts)
  have hwritten : encode .none (.tuple [.orderedMap (.integer false .w16) .empty, .option .text])
        (.list [.map [(.integer 3, .unit), (.integer 513, .unit)], .option (some (.text "ab"))])
        [] =
      .ok () [2, 0, 0, 0, 3, 0, 1, 2, 1, 2, 0, 0, 0, 97, 98] := by
    rfl
  exact ⟨hwritten, marshal_truncated .none hv (p := []) hwritten (by decide) [] (by decide)⟩

end Decode

end CodecForge.Wire
