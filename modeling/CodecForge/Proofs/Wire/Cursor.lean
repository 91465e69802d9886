import CodecForge.Proofs.Wire.Taken

/-!
# Runs of reads

A `Read` is one thing that is read of an input, and `Read.Gives` says what may come of it and where
the input stands then.  After any reads, of which some may have failed, the input stands within its
buffer, and the next read never takes it back.
-/

namespace CodecForge.Wire

/-! ### Room in a buffer -/

/-- There are as many bytes left, and the offset behind them is one. -/
structure Input.HasRoom (i : Input) (n : Nat) : Prop where
  isOffset : i.offset + n < UInt64.size
  inBuffer : i.offset + n ≤ i.buffer.length

instance (i : Input) (n : Nat) : Decidable (i.HasRoom n) :=
  decidable_of_iff (i.offset + n < UInt64.size ∧ i.offset + n ≤ i.buffer.length)
    ⟨fun h => ⟨h.1, h.2⟩, fun h => ⟨h.1, h.2⟩⟩

section Room

variable {i : Input} {n : Nat}

theorem Input.HasRoom.length_next (h : i.HasRoom n) : (i.next n).length = n := by
  have hroom := h.inBuffer
  rw [Input.next, List.length_take, List.length_drop]
  omega

namespace Reader

theorem bytes_of_hasRoom (h : i.HasRoom n) : bytes n i = .ok (i.next n) (i.advance n) := by
  rw [bytes_apply, if_pos (by simp [fitsOffset, h.isOffset, h.inBuffer])]

theorem bytes_of_not_hasRoom (h : ¬ i.HasRoom n) :
    bytes n i = .error (.readFailed i.offset .endOfBuffer) i := by
  rw [bytes_apply, if_neg]
  intro hroom
  simp only [fitsOffset, Bool.and_eq_true, decide_eq_true_eq] at hroom
  exact h ⟨hroom.1, hroom.2⟩

variable {w : Width}

theorem bits_of_hasRoom (h : i.HasRoom w.bytes) :
    bits w i = .ok (ofLittleEndian (i.next w.bytes)) (i.advance w.bytes) :=
  bind_eq_of_ok (bytes_of_hasRoom h) _

theorem bits_of_not_hasRoom (h : ¬ i.HasRoom w.bytes) :
    bits w i = .error (.readFailed i.offset .endOfBuffer) i :=
  bind_eq_of_error (bytes_of_not_hasRoom h) _

/-- The number that is read is the one of its width with these bytes. -/
theorem exists_bits_of_hasRoom (h : i.HasRoom w.bytes) : ∃ n < w.bound,
    i.next w.bytes = littleEndian w.bytes n ∧ bits w i = .ok n (i.advance w.bytes) := by
  have hlength := h.length_next
  have hlt := ofLittleEndian_lt (i.next w.bytes)
  have hbytes := littleEndian_ofLittleEndian (i.next w.bytes)
  rw [hlength] at hlt hbytes
  exact ⟨_, w.bound_eq_pow ▸ hlt, hbytes.symm, bits_of_hasRoom h⟩

end Reader

end Room

/-! ### Reads -/

/-- One thing that is read. -/
inductive Read where
  | bool
  | integer (signed : Bool) (w : Width)
  /-- A number with a point, by its bits. -/
  | float (w : Width)
  | bytes (n : Nat)
  /-- A number of bytes that are to follow. -/
  | length
  /-- A number of elements. -/
  | count
  deriving DecidableEq, Repr

namespace Read

/-- The values that are read. -/
abbrev Result : Read → Type
  | bool => Bool
  | integer _ _ => Int
  | float _ => Nat
  | bytes _ => Bytes
  | length => Nat
  | count => Nat

/-- How it is read. -/
def reader : (x : Read) → Reader x.Result
  | bool => Reader.bool
  | integer signed w => Reader.integer signed w
  | float w => Reader.bits w
  | bytes n => Reader.bytes n
  | length => Reader.length
  | count => Reader.count

/-- How many bytes it takes. -/
def size : Read → Nat
  | bool => 1
  | integer _ w => w.bytes
  | float w => w.bytes
  | bytes n => n
  | length => 4
  | count => 4

/-- The value is one of those that can be read. -/
def IsValue : (x : Read) → x.Result → Prop
  | bool, _ => True
  | integer signed w, n => w.Holds signed n
  | float w, n => n < w.bound
  | bytes n, data => data.length = n
  | length, n => n < UInt32.size
  | count, n => n < UInt32.size

/-- The bytes of the value, those of a number with the lowest first. -/
def written : (x : Read) → x.Result → Bytes
  | bool, b => [if b then 1 else 0]
  | integer _ w, n => littleEndian w.bytes (bitsOfInt w n)
  | float w, n => littleEndian w.bytes n
  | bytes _, data => data
  | length, n => littleEndian 4 n
  | count, n => littleEndian 4 n

/-- How many bytes are to follow the value. -/
def announced : (x : Read) → x.Result → Nat
  | length, n => n
  | _, _ => 0

/-- What may come of a read. -/
inductive Gives (i : Input) : (x : Read) → EStateM.Result CodecError Input x.Result → Prop
  /-- The next bytes are those of the value, and as many follow as it says. -/
  | value {x : Read} {a : x.Result} (hroom : i.HasRoom x.size) (hvalue : x.IsValue a)
      (hbytes : i.next x.size = x.written a)
      (hfollow : x.announced a ≤ (i.advance x.size).remaining) :
      Gives i x (.ok a (i.advance x.size))
  /-- Nothing is taken for want of bytes. -/
  | short {x : Read} (hroom : ¬ i.HasRoom x.size) :
      Gives i x (.error (.readFailed i.offset .endOfBuffer) i)
  /-- The byte that is taken is no truth value. -/
  | noBool {b : UInt8} (hroom : i.HasRoom 1) (hbyte : i.next 1 = [b]) (hb : 1 < b) :
      Gives i bool (.error (.invalidData (.boolByte b i.offset)) (i.advance 1))
  /-- The length that is taken is greater than the number of bytes behind it. -/
  | beyondEnd {n : Nat} (hroom : i.HasRoom 4) (hn : n < UInt32.size)
      (hbytes : i.next 4 = littleEndian 4 n) (hbeyond : (i.advance 4).remaining < n) :
      Gives i length (.error (.readFailed i.offset (.lengthBeyondEnd n)) (i.advance 4))

/-! ### What comes of each read -/

section Gives

variable (i : Input)

theorem gives_bytes (n : Nat) : Gives i (.bytes n) (Reader.bytes n i) := by
  by_cases h : i.HasRoom n
  · rw [Reader.bytes_of_hasRoom h]
    exact .value (x := .bytes n) h h.length_next rfl (Nat.zero_le _)
  · rw [Reader.bytes_of_not_hasRoom h]
    exact .short (x := .bytes n) h

/-- Numbers are read of their own bytes. -/
theorem gives_number {x : Read} {w : Width} {f : Nat → x.Result} (hsize : x.size = w.bytes)
    (hvalue : ∀ n < w.bound, x.IsValue (f n) ∧ littleEndian w.bytes n = x.written (f n) ∧
      x.announced (f n) = 0) : Gives i x ((do return f (← Reader.bits w) : Reader x.Result) i) := by
  by_cases h : i.HasRoom w.bytes
  · obtain ⟨n, hn, hbytes, hrun⟩ := Reader.exists_bits_of_hasRoom h
    obtain ⟨hf, hwritten, hnone⟩ := hvalue n hn
    rw [← hsize] at h hrun
    rw [bind_eq_of_ok hrun]
    exact .value h hf (by rw [hsize, hbytes, hwritten]) (hnone ▸ Nat.zero_le _)
  · rw [bind_eq_of_error (Reader.bits_of_not_hasRoom h)]
    exact .short (hsize ▸ h)

theorem gives_integer (signed : Bool) (w : Width) :
    Gives i (.integer signed w) (Reader.integer signed w i) :=
  gives_number i (x := .integer signed w) rfl fun _ hn =>
    ⟨holds_intOfBits signed hn, congrArg _ (bitsOfInt_intOfBits signed hn).symm, rfl⟩

theorem gives_float (w : Width) : Gives i (.float w) (Reader.bits w i) := by
  rw [← bind_pure (Reader.bits w)]
  exact gives_number i (x := .float w) rfl fun _ hn => ⟨hn, rfl, rfl⟩

theorem gives_count : Gives i .count (Reader.count i) := by
  rw [Reader.count, ← bind_pure (Reader.bits .w32)]
  exact gives_number i (x := .count) rfl fun _ hn => ⟨hn, rfl, rfl⟩

/-- A byte that is no truth value is refused where it stands. -/
theorem gives_bool : Gives i .bool (Reader.bool i) := by
  rw [Reader.bool, get_bind]
  by_cases h : i.HasRoom 1
  · obtain ⟨n, hn, hbytes, hrun⟩ := Reader.exists_bits_of_hasRoom (w := .w8) h
    have hmod : n % 256 = n := Nat.mod_eq_of_lt hn
    rw [Width.bytes, littleEndian, hmod] at hbytes
    rw [bind_eq_of_ok hrun]
    obtain _ | _ | n := n
    · exact .value (x := .bool) (a := false) h trivial hbytes (Nat.zero_le _)
    · exact .value (x := .bool) (a := true) h trivial hbytes (Nat.zero_le _)
    · refine .noBool h hbytes ?_
      rw [UInt8.lt_iff_toNat_lt, UInt8.toNat_ofNat_of_lt' hn]
      exact Nat.succ_lt_succ n.succ_pos
  · rw [bind_eq_of_error (Reader.bits_of_not_hasRoom (w := .w8) h)]
    exact .short (x := .bool) h

/-- A length is refused where there are fewer bytes behind it. -/
theorem gives_length : Gives i .length (Reader.length i) := by
  rw [Reader.length, get_bind]
  by_cases h : i.HasRoom 4
  · obtain ⟨n, hn, hbytes, hrun⟩ := Reader.exists_bits_of_hasRoom (w := .w32) h
    rw [bind_eq_of_ok hrun, get_bind]
    by_cases hbeyond : n > (i.advance (Width.bytes .w32)).remaining
    · rw [if_pos hbeyond]
      exact .beyondEnd h hn hbytes hbeyond
    · rw [if_neg hbeyond]
      exact .value (x := .length) h hn hbytes (Nat.le_of_not_lt hbeyond)
  · rw [bind_eq_of_error (Reader.bits_of_not_hasRoom (w := .w32) h)]
    exact .short (x := .length) h

theorem gives_reader (x : Read) : Gives i x (x.reader i) := by
  cases x with
  | bool => exact gives_bool i
  | integer signed w => exact gives_integer i signed w
  | float w => exact gives_float i w
  | bytes n => exact gives_bytes i n
  | length => exact gives_length i
  | count => exact gives_count i

end Gives

/-! ### Runs -/

/-- The input behind a read, whatever came of it. -/
def leave (x : Read) (i : Input) : Input :=
  match x.reader i with
  | .ok _ i' => i'
  | .error _ i' => i'

/-- The input behind reads of a buffer from its start, of which some may have failed. -/
def reached (buffer : Bytes) (reads : List Read) : Input :=
  reads.foldl (fun i x => x.leave i) ⟨buffer, 0⟩

theorem leave_cases (x : Read) (i : Input) :
    x.leave i = i ∨ ∃ n, i.HasRoom n ∧ x.leave i = i.advance n := by
  have hgives := gives_reader i x
  unfold leave
  cases hrun : x.reader i with
  | ok a i' =>
    rw [hrun] at hgives
    cases hgives with
    | value hroom => exact .inr ⟨_, hroom, rfl⟩
  | error e i' =>
    rw [hrun] at hgives
    cases hgives with
    | short => exact .inl rfl
    | noBool hroom => exact .inr ⟨_, hroom, rfl⟩
    | beyondEnd hroom => exact .inr ⟨_, hroom, rfl⟩

theorem offset_le_offset_leave (x : Read) (i : Input) : i.offset ≤ (x.leave i).offset := by
  obtain h | ⟨n, -, h⟩ := leave_cases x i
  · rw [h]
  · rw [h]
    exact Nat.le_add_right _ _

/-- The input stands in the buffer, at an offset that is one. -/
structure Within (buffer : Bytes) (i : Input) : Prop where
  buffer_eq : i.buffer = buffer
  offset_le : i.offset ≤ buffer.length
  isOffset : i.offset < UInt64.size

variable {buffer : Bytes} {i : Input}

theorem Within.leave (h : Within buffer i) (x : Read) : Within buffer (x.leave i) := by
  obtain hleave | ⟨n, hroom, hleave⟩ := leave_cases x i
  · rwa [hleave]
  · rw [hleave]
    exact ⟨h.buffer_eq, h.buffer_eq ▸ hroom.inBuffer, hroom.isOffset⟩

theorem within_reached (buffer : Bytes) (reads : List Read) :
    Within buffer (reached buffer reads) := by
  unfold reached
  refine List.foldlRecOn reads _ (motive := Within buffer) ?_ fun i h x _ => h.leave x
  exact ⟨rfl, Nat.zero_le _, (by decide : 0 < UInt64.size)⟩

theorem offset_reached_append (buffer : Bytes) (past future : List Read) :
    (reached buffer past).offset ≤ (reached buffer (past ++ future)).offset := by
  rw [reached, reached, List.foldl_append]
  refine List.foldlRecOn future _
    (motive := fun i : Input => (reached buffer past).offset ≤ i.offset)
    (Nat.le_refl _) fun i h x _ => ?_
  exact Nat.le_trans h (offset_le_offset_leave x i)

theorem Within.remaining (h : Within buffer i) : i.offset + i.remaining = buffer.length := by
  have hle := h.offset_le
  rw [Input.remaining, h.buffer_eq]
  omega

/-- After any reads of a buffer, whatever came of them, the input stands within the buffer and never
again in front of this place, and the next read gives one of the things that a read may give. -/
theorem reads_stay_within (buffer : Bytes) (past future : List Read) (x : Read) :
    Within buffer (reached buffer past) ∧
    (reached buffer past).offset + (reached buffer past).remaining = buffer.length ∧
    (reached buffer past).offset ≤ (reached buffer (past ++ future)).offset ∧
    x.Gives (reached buffer past) (x.reader (reached buffer past)) :=
  ⟨within_reached buffer past, (within_reached buffer past).remaining,
    offset_reached_append buffer past future, gives_reader _ x⟩

/-- A byte that is no truth value, a number of bytes beyond all offsets, a length that is too great,
and the last byte. -/
example : reached [2, 9, 0, 0, 0, 7] [.bool, .bytes (UInt64.size - 1), .length, .bytes 1] =
    ⟨[2, 9, 0, 0, 0, 7], 6⟩ := by decide

end Read

end CodecForge.Wire
