import CodecForge.Proofs.Wire.RoundTrip
import CodecForge.Proofs.Wire.Taken

/-!
# Decoding depends on the bytes it takes

A reader is local if whatever it makes a value of are bytes that it makes the same value of at any
other place, with anything or nothing behind them.  Being local is closed under sequencing, and the
decoder of every built-in type is local.
-/

namespace CodecForge.Wire

/-! ### Built-in types -/

/-- The type is built of truth values, numbers, texts and markers alone, without declared types; it
has maps in it only where `maps` holds. -/
inductive WireType.BuiltIn (maps : Prop) : WireType → Prop where
  | bool : BuiltIn maps .bool
  | integer (signed : Bool) (w : Width) : BuiltIn maps (.integer signed w)
  | float (w : Width) : BuiltIn maps (.float w)
  | text : BuiltIn maps .text
  | empty : BuiltIn maps .empty
  | list {t : WireType} : BuiltIn maps t → BuiltIn maps (.list t)
  | array {t : WireType} (n : Nat) : BuiltIn maps t → BuiltIn maps (.array t n)
  | option {t : WireType} : BuiltIn maps t → BuiltIn maps (.option t)
  | boxed {t : WireType} : BuiltIn maps t → BuiltIn maps (.boxed t)
  | tuple {ts : List WireType} : (∀ t ∈ ts, BuiltIn maps t) → BuiltIn maps (.tuple ts)
  | orderedMap {k t : WireType} : maps → BuiltIn maps k → BuiltIn maps t →
      BuiltIn maps (.orderedMap k t)
  | hashMap {k t : WireType} : maps → BuiltIn maps k → BuiltIn maps t →
      BuiltIn maps (.hashMap k t)

/-! ### Places in buffers -/

/-- The offset is one in the buffer, whose bytes can be counted with 64 bits. -/
def Input.IsPlaced (i : Input) : Prop :=
  i.offset ≤ i.buffer.length ∧ i.buffer.length < UInt64.size

instance (i : Input) : Decidable i.IsPlaced := inferInstanceAs (Decidable (_ ∧ _))

namespace Reader

variable {α β : Type} {r : Reader α}

theorem Yields.run {b : Bytes} {a : α} (h : Yields r b a) {i : Input} (hi : i.IsPlaced)
    (hb : b <+: i.rest) : r i = .ok a (i.advance b.length) := by
  obtain ⟨rest, hrest⟩ := hb
  have hbuffer : i.buffer.take i.offset ++ (b ++ rest) = i.buffer := by
    rw [hrest, Input.rest, List.take_append_drop]
  have hoffset : (i.buffer.take i.offset).length = i.offset := List.length_take_of_le hi.1
  have hrun := h (i.buffer.take i.offset) rest (by rw [hbuffer]; exact hi.2)
  rwa [hbuffer, hoffset] at hrun

/-! ### Local readers -/

/-- Whatever bytes the reader makes a value of, it makes this value of them anywhere. -/
def Local (r : Reader α) : Prop := Takes r fun a b => Yields r b a

theorem local_pure (a : α) : Local (pure a) := takes_pure (yields_pure a)

theorem local_throw (e : CodecError) : Local (throw e : Reader α) := takes_throw e

theorem Local.bind {f : α → Reader β} (hr : Local r) (hf : ∀ a, Local (f a)) : Local (r >>= f) :=
  Takes.bind hr fun a _ hab => (hf a).mono fun _ _ hxc => hab.bind hxc

theorem Local.map (hr : Local r) (f : α → β) : Local (do return f (← r)) :=
  hr.bind fun a => local_pure (f a)

theorem local_bits (w : Width) : Local (bits w) :=
  (takes_bits w).mono fun _ _ ⟨hn, hb⟩ => hb ▸ yields_bits hn

theorem local_integer (signed : Bool) (w : Width) : Local (integer signed w) :=
  (local_bits w).map (intOfBits signed w)

theorem local_bool : Local bool := takes_bool.mono fun x _ hb => hb ▸ yields_bool x

theorem local_count : Local count := local_bits .w32

/-- A text looks for the bytes that its length announces, and these are its own. -/
theorem local_text : Local text :=
  takes_text.mono fun s _ ⟨hs, hb⟩ => hb ▸ yields_text hs (decodeUtf8_encodeUtf8 s)

theorem local_decodeMany (hr : Local r) (n : Nat) : Local (decodeMany r n) := by
  induction n with
  | zero => exact local_pure []
  | succ n ih => exact hr.bind fun a => ih.map (a :: ·)

end Reader

/-! ### Decoders -/

section Decode

variable (codecs : Codecs)

theorem local_asArray (n : Nat) (elems : List Value) : Reader.Local (asArray n elems) := by
  unfold asArray
  split
  · exact Reader.local_pure _
  · exact Reader.local_throw _

theorem local_decodeTuple {ts : List WireType} (h : ∀ t ∈ ts, Reader.Local (decode codecs t)) :
    Reader.Local (decodeTuple codecs ts) := by
  induction ts with
  | nil => exact Reader.local_pure []
  | cons t ts ih =>
    rw [List.forall_mem_cons] at h
    exact h.1.bind fun v => (ih h.2).map (v :: ·)

theorem local_entries {k t : WireType} (hk : Reader.Local (decode codecs k))
    (ht : Reader.Local (decode codecs t)) (n : Nat) :
    Reader.Local (decodeMany (do return (← decode codecs k, ← decode codecs t)) n) :=
  Reader.local_decodeMany (hk.bind fun v => ht.map (v, ·)) n

theorem local_decode {maps : Prop} {t : WireType} (ht : t.BuiltIn maps) :
    Reader.Local (decode codecs t) := by
  induction ht with
  | bool => exact Reader.local_bool.map Value.bool
  | integer signed w => exact (Reader.local_integer signed w).map Value.integer
  | float w => exact (Reader.local_bits w).map Value.float
  | text => exact Reader.local_text.map Value.text
  | empty => exact Reader.local_pure _
  | list _ ih =>
    exact Reader.local_count.bind fun n => (Reader.local_decodeMany ih n).map Value.list
  | array n _ ih => exact (Reader.local_decodeMany ih n).bind fun elems => local_asArray n elems
  | option _ ih =>
    refine Reader.local_bool.bind fun present => ?_
    cases present with
    | true => exact ih.map fun v => Value.option (some v)
    | false => exact Reader.local_pure _
  | boxed _ ih => exact ih
  | tuple _ ih => exact (local_decodeTuple codecs ih).map Value.list
  | orderedMap _ _ _ ihk ih =>
    exact Reader.local_count.bind fun n =>
      (local_entries codecs ihk ih n).map fun es => Value.map (Value.sortedMap es)
  | hashMap _ _ _ ihk ih =>
    exact Reader.local_count.bind fun n =>
      (local_entries codecs ihk ih n).map fun es => Value.map (Value.hashedMap es)

/-- A value of a built-in type that is made of the next bytes of an input is made of the same bytes
wherever else they come next, and the decoder goes on behind them. -/
theorem marshal_local {t : WireType} (ht : t.BuiltIn True) {i i' : Input} {v : Value}
    (h : decode codecs t i = .ok v i') :
    ∃ n, i' = i.advance n ∧ (i.next n).length = n ∧
      ∀ j : Input, j.IsPlaced → j.next n = i.next n →
        decode codecs t j = .ok v (j.advance n) := by
  obtain ⟨b, hb, hi', hyields⟩ := local_decode codecs ht i v i' h
  have hnext : i.next b.length = b := Input.next_eq_of_prefix hb
  refine ⟨b.length, hi', by rw [hnext], fun j hj hsame => hyields.run hj ?_⟩
  rw [hnext] at hsame
  exact hsame ▸ List.take_prefix _ _

/-- A text and a map with a key that comes twice, with bytes behind them and without. -/
theorem marshal_local_repeated :
    decode .none (.tuple [.text, .hashMap (.integer false .w8) .bool])
        ⟨[9, 1, 0, 0, 0, 97, 2, 0, 0, 0, 7, 0, 7, 1, 5, 5], 1⟩ =
      .ok (.list [.text "a", .map [(.integer 7, .bool true)]])
        ⟨[9, 1, 0, 0, 0, 97, 2, 0, 0, 0, 7, 0, 7, 1, 5, 5], 14⟩ ∧
    decode .none (.tuple [.text, .hashMap (.integer false .w8) .bool])
        ⟨[1, 0, 0, 0, 97, 2, 0, 0, 0, 7, 0, 7, 1], 0⟩ =
      .ok (.list [.text "a", .map [(.integer 7, .bool true)]])
        ⟨[1, 0, 0, 0, 97, 2, 0, 0, 0, 7, 0, 7, 1], 13⟩ := by
  have ht : (WireType.tuple [.text, .hashMap (.integer false .w8) .bool]).BuiltIn True := by
    refine .tuple ?_
    simp only [List.forall_mem_cons, List.not_mem_nil, IsEmpty.forall_iff, implies_true, and_true]
    exact ⟨.text, .hashMap trivial (.integer _ _) .bool⟩
  have h : decode .none (.tuple [.text, .hashMap (.integer false .w8) .bool])
        ⟨[9, 1, 0, 0, 0, 97, 2, 0, 0, 0, 7, 0, 7, 1, 5, 5], 1⟩ =
      .ok (.list [.text "a", .map [(.integer 7, .bool true)]])
        ⟨[9, 1, 0, 0, 0, 97, 2, 0, 0, 0, 7, 0, 7, 1, 5, 5], 14⟩ := by
    have hmap : Value.hashedMap [(.integer 7, .bool false), (.integer 7, .bool true)] =
        [(.integer 7, .bool true)] := by
      simp [Value.hashedMap, Value.insertHashed, Value.sameKey, Value.compare]
    rw [← hmap]
    simp only [decode, decodeTuple]
    rfl
  obtain ⟨n, hn, -, hlocal⟩ := marshal_local .none ht h
  obtain rfl : n = 13 := by
    have := congrArg Input.offset hn
    simp only [Input.advance] at this
    omega
  exact ⟨h, hlocal _ (by decide) rfl⟩

end Decode

end CodecForge.Wire
