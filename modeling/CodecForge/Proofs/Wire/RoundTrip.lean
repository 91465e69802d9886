import CodecForge.Proofs.Wire.Order
import CodecForge.Proofs.Wire.Utf8

/-!
# Values come back from their bytes

`emits_encode` says what the encoder of a type does with a value of it, and `yields_decode` that the
decoder makes the value of its form.  `marshal_roundTrip` puts them together for every
representation of a value.
-/

namespace CodecForge.Wire

variable (codecs : Codecs)

/-! ### Encoding -/

/-- The encoder of a type writes the form of a value, unless a length within it is too great. -/
theorem emits_encode {t : WireType} {v : Value} (hv : HasType t v) :
    Writer.Emits (encode codecs t v) (lengths t v) (form t v) := by
  induction hv with
  | bool b => exact Writer.emits_bool b
  | integer => exact Writer.emits_integer _ _
  | float => exact Writer.emits_bits _ _
  | text s => exact Writer.emits_text s
  | empty => exact Writer.emits_pure
  | list _ ih => exact (Writer.emits_length _).bind (Writer.Emits.forM ih)
  | array _ _ ih => exact Writer.Emits.forM ih
  | absent => exact Writer.emits_bool false
  | present _ ih => exact (Writer.emits_bool true).bind ih
  | boxed _ ih => exact ih
  | noParts => exact Writer.emits_pure
  | part _ _ ih ihs => exact ih.bind ihs
  | orderedMap _ _ _ ihk ih =>
    exact (Writer.emits_length _).bind (Writer.Emits.forM fun e he => (ihk e he).bind (ih e he))
  | hashMap _ _ _ ihk ih =>
    exact (Writer.emits_length _).bind (Writer.Emits.forM fun e he => (ihk e he).bind (ih e he))

/-! ### Decoding -/

/-- As many values are read as were asked for. -/
theorem length_of_decodeMany {α : Type} {read : Reader α} {n : Nat} {l : List α} {i i' : Input}
    (h : decodeMany read n i = .ok l i') : l.length = n := by
  induction n generalizing l i with
  | zero =>
    cases h
    rfl
  | succ n ih =>
    obtain ⟨a, j, -, h⟩ := exists_of_bind_eq_ok h
    obtain ⟨as, j', htail, h⟩ := exists_of_bind_eq_ok h
    cases h
    rw [List.length_cons, ih htail]

/-- As many elements are read as an array has, so they are always an array. -/
theorem decode_array (t : WireType) (n : Nat) :
    decode codecs (.array t n) = do return .list (← decodeMany (decode codecs t) n) := by
  funext i
  cases hrun : decodeMany (decode codecs t) n i with
  | ok elems i' =>
    have hlength : elems.length = n := length_of_decodeMany hrun
    have harray : decode codecs (.array t n) i = asArray n elems i' := bind_eq_of_ok hrun _
    rw [harray, bind_eq_of_ok hrun, asArray, if_pos hlength]
  | error e i' =>
    have harray : decode codecs (.array t n) i = .error e i' := bind_eq_of_error hrun _
    rw [harray, bind_eq_of_error hrun]

theorem yields_decodeMany {α : Type} {read : Reader α} {b : α → Bytes} {l : List α}
    (h : ∀ a ∈ l, Reader.Yields read (b a) a) :
    Reader.Yields (decodeMany read l.length) (l.flatMap b) l := by
  induction l with
  | nil => exact Reader.yields_pure []
  | cons a l ih =>
    have htail := ih fun a' ha' => h a' (List.mem_cons_of_mem _ ha')
    exact (h a List.mem_cons_self).bind (htail.map (a :: ·))

/-- The entries of a map are read as pairs of a key and a value. -/
theorem yields_entries {k t : WireType} {entries : List (Value × Value)}
    (hk : ∀ e ∈ entries, Reader.Yields (decode codecs k) (form k e.1) e.1)
    (ht : ∀ e ∈ entries, Reader.Yields (decode codecs t) (form t e.2) e.2) :
    Reader.Yields (decodeMany (do return (← decode codecs k, ← decode codecs t)) entries.length)
      (entries.flatMap fun e => form k e.1 ++ form t e.2) entries :=
  yields_decodeMany fun e he => (hk e he).bind ((ht e he).map (e.1, ·))

/-- The decoder of a type makes a value of its form, wherever that stands. -/
theorem yields_decode {t : WireType} {v : Value} (hv : HasType t v)
    (hfits : ∀ n ∈ lengths t v, n < UInt32.size) :
    Reader.Yields (decode codecs t) (form t v) v := by
  induction hv with
  | bool b => exact (Reader.yields_bool b).map Value.bool
  | integer h => exact (Reader.yields_integer h).map Value.integer
  | float h => exact (Reader.yields_bits h).map Value.float
  | text s =>
    have hlen := hfits _ List.mem_cons_self
    exact (Reader.yields_text hlen (decodeUtf8_encodeUtf8 s)).map Value.text
  | empty => exact Reader.yields_pure _
  | list _ ih =>
    simp only [lengths, List.forall_mem_cons, List.forall_mem_flatMap] at hfits
    have helems := yields_decodeMany fun v hv => ih v hv (hfits.2 v hv)
    exact (Reader.yields_count hfits.1).bind (helems.map Value.list)
  | array hlen _ ih =>
    simp only [lengths, List.forall_mem_flatMap] at hfits
    subst hlen
    have helems := yields_decodeMany fun v hv => ih v hv (hfits v hv)
    have harray := helems.bind (f := asArray _)
      (by rw [asArray, if_pos rfl]; exact Reader.yields_pure _)
    rwa [List.append_nil] at harray
  | absent => exact (Reader.yields_bool false).bind (c := []) (Reader.yields_pure _)
  | present _ ih =>
    exact (Reader.yields_bool true).bind ((ih hfits).map fun v => Value.option (some v))
  | boxed _ ih => exact ih hfits
  | noParts => exact Reader.yields_pure _
  | part _ _ ih ihs =>
    simp only [lengths, lengthsOfParts, List.forall_mem_append] at hfits ihs
    have htail := (ihs hfits.2).of_map fun _ _ h => Value.list.inj h
    exact ((ih hfits.1).bind (htail.map (_ :: ·))).map Value.list
  | orderedMap hk _ hord ihk ih =>
    simp only [lengths, List.forall_mem_cons, List.forall_mem_flatMap,
      List.forall_mem_append] at hfits
    have hentries := yields_entries codecs (fun e he => ihk e he (hfits.2 e he).1)
      fun e he => ih e he (hfits.2 e he).2
    have hmap := hentries.map fun es => Value.map (Value.sortedMap es)
    rw [Value.sortedMap_eq_self hk hord] at hmap
    exact (Reader.yields_count hfits.1).bind hmap
  | hashMap hk _ hnodup ihk ih =>
    simp only [lengths, List.forall_mem_cons, List.forall_mem_flatMap,
      List.forall_mem_append] at hfits
    have hentries := yields_entries codecs (fun e he => ihk e he (hfits.2 e he).1)
      fun e he => ih e he (hfits.2 e he).2
    have hmap := hentries.map fun es => Value.map (Value.hashedMap es)
    rw [Value.hashedMap_eq_self hk hnodup] at hmap
    exact (Reader.yields_count hfits.1).bind hmap

/-! ### Round trips -/

/-- Every representation of a value is refused exactly if some text, list or map within the value is
too long; otherwise it is written as its form, whatever was written before, and the form is read as
that representation, whatever stands around it. -/
theorem marshal_roundTrip {t : WireType} {v w : Value} (hv : HasType t v) (hw : SameValue t v w) :
    (∀ p, (∃ e p', encode codecs t w p = .error e p') ↔ ∃ n ∈ lengths t v, UInt32.size ≤ n) ∧
    ((∀ n ∈ lengths t v, n < UInt32.size) →
      (∀ p, encode codecs t w p = .ok () (p ++ form t w)) ∧
      ∀ before rest, (before ++ (form t w ++ rest)).length < UInt64.size →
        decode codecs t ⟨before ++ (form t w ++ rest), before.length⟩ =
          .ok w ⟨before ++ (form t w ++ rest), before.length + (form t w).length⟩) := by
  have hwt := hv.of_sameValue hw
  have hemits := emits_encode codecs hwt
  have hmem := mem_lengths_iff_of_sameValue hv hw
  constructor
  · intro p
    rw [hemits.fails_iff p]
    simp only [hmem]
  · intro hfits
    have hfits' : ∀ n ∈ lengths t w, n < UInt32.size := fun n hn => hfits n ((hmem n).1 hn)
    exact ⟨hemits.appends hfits', yields_decode codecs hwt hfits'⟩

/-- A hash map that lists its entries in another order than the one it is compared with. -/
theorem marshal_roundTrip_reordered :
    HasType (.hashMap .text (.list .empty))
      (.map [(.text "b", .list [.unit]), (.text "a", .list [])]) ∧
    SameValue (.hashMap .text (.list .empty))
      (.map [(.text "b", .list [.unit]), (.text "a", .list [])])
      (.map [(.text "a", .list []), (.text "b", .list [.unit])]) ∧
    encode .none (.hashMap .text (.list .empty))
        (.map [(.text "a", .list []), (.text "b", .list [.unit])]) [7] =
      .ok () [7, 2, 0, 0, 0, 1, 0, 0, 0, 97, 0, 0, 0, 0, 1, 0, 0, 0, 98, 1, 0, 0, 0] ∧
    decode .none (.hashMap .text (.list .empty))
        ⟨[7, 2, 0, 0, 0, 1, 0, 0, 0, 97, 0, 0, 0, 0, 1, 0, 0, 0, 98, 1, 0, 0, 0, 8], 1⟩ =
      .ok (.map [(.text "a", .list []), (.text "b", .list [.unit])])
        ⟨[7, 2, 0, 0, 0, 1, 0, 0, 0, 97, 0, 0, 0, 0, 1, 0, 0, 0, 98, 1, 0, 0, 0, 8], 23⟩ := by
  have hv : HasType (.hashMap .text (.list .empty))
      (.map [(.text "b", .list [.unit]), (.text "a", .list [])]) := by
    refine .hashMap ?_ ?_ (by simp)
    · simp only [List.forall_mem_cons, List.not_mem_nil, IsEmpty.forall_iff, implies_true, and_true]
      exact ⟨.text "b", .text "a"⟩
    · simp only [List.forall_mem_cons, List.not_mem_nil, IsEmpty.forall_iff, implies_true, and_true]
      exact ⟨.list (by simpa using HasType.empty), .list (by simp)⟩
  have hw : SameValue (.hashMap .text (.list .empty))
      (.map [(.text "b", .list [.unit]), (.text "a", .list [])])
      (.map [(.text "a", .list []), (.text "b", .list [.unit])]) := by
    simp only [SameValue]
    exact ⟨_, .swap _ _ _, by simp [SameValue]⟩
  have hround := (marshal_roundTrip .none hv hw).2 (by simp [lengths, encodeUtf8]; decide)
  exact ⟨hv, hw, hround.1 [7], hround.2 [7] [8] (by decide)⟩

end CodecForge.Wire
