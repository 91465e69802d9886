import CodecForge.Proofs.Wire.Canonical
import CodecForge.Proofs.Wire.Entries

/-!
# Maps and the pairs they are read from

The decoder of a map reads what the decoder of a list of pairs reads, and puts the pairs into the
map one after the other.  What is written for one kind of maps is therefore read as the other kind,
and a sorted map is written as it was read only if the keys stood in their order.
-/

namespace CodecForge.Wire

/-! ### Decoders of maps -/

section Decode

variable (codecs : Codecs)

/-- Reads one entry. -/
def decodeEntry (k t : WireType) : Reader (Value × Value) :=
  return (← decode codecs k, ← decode codecs t)

/-- Reads entries with their number in front. -/
def decodeEntries (k t : WireType) : Reader (List (Value × Value)) := do
  decodeMany (decodeEntry codecs k t) (← Reader.count)

theorem decodeMany_map {α β : Type} (r : Reader α) (f : α → β) (n : Nat) :
    decodeMany (f <$> r) n = List.map f <$> decodeMany r n := by
  induction n with
  | zero => simp [decodeMany]
  | succ n ih => simp [decodeMany, ih]

theorem decode_pair (k t : WireType) :
    decode codecs (.tuple [k, t]) = do return Value.pair (← decodeEntry codecs k t) := by
  simp [decode, decodeTuple, decodeEntry, Value.pair]

/-- A list of pairs is read as entries. -/
theorem decode_pairs (k t : WireType) :
    decode codecs (.list (.tuple [k, t])) =
      do return .list ((← decodeEntries codecs k t).map Value.pair) := by
  rw [decode, decode_pair]
  simp [decodeMany_map, decodeEntries]

theorem decode_orderedMap (k t : WireType) :
    decode codecs (.orderedMap k t) =
      do return .map (Value.sortedMap (← decodeEntries codecs k t)) := by
  simp [decode, decodeEntries, decodeEntry]

theorem decode_hashMap (k t : WireType) :
    decode codecs (.hashMap k t) =
      do return .map (Value.hashedMap (← decodeEntries codecs k t)) := by
  simp [decode, decodeEntries, decodeEntry]

/-- Reads the given number of entries and puts each into the map before the next one is read. -/
def insertMany (read : Reader (Value × Value))
    (put : List (Value × Value) → Value × Value → List (Value × Value)) :
    Nat → List (Value × Value) → Reader (List (Value × Value))
  | 0, m => return m
  | n + 1, m => do insertMany read put n (put m (← read))

/-- It is the same whether the entries are put into the map as they are read or all at the end. -/
theorem insertMany_eq_foldl (read : Reader (Value × Value))
    (put : List (Value × Value) → Value × Value → List (Value × Value)) (n : Nat)
    (m : List (Value × Value)) :
    insertMany read put n m = do return (← decodeMany read n).foldl put m := by
  induction n generalizing m with
  | zero => simp [insertMany, decodeMany]
  | succ n ih => simp [insertMany, decodeMany, ih]

/-- The decoders of maps put each entry into the map before they read the next one. -/
theorem decode_map_eq_insertMany (k t : WireType) :
    decode codecs (.orderedMap k t) = (do
      return .map (← insertMany (decodeEntry codecs k t) (fun m e => Value.insertSorted e.1 e.2 m)
        (← Reader.count) [])) ∧
    decode codecs (.hashMap k t) = do
      return .map (← insertMany (decodeEntry codecs k t) (fun m e => Value.insertHashed e.1 e.2 m)
        (← Reader.count) []) := by
  simp [decode_orderedMap, decode_hashMap, decodeEntries, insertMany_eq_foldl, Value.sortedMap,
    Value.hashedMap]

/-! ### The types of what is decoded -/

theorem takes_elements {α : Type} {read : Reader α} {P : α → Prop}
    (h : Reader.Takes read fun a _ => P a) (n : Nat) :
    Reader.Takes (decodeMany read n) fun l _ => l.length = n ∧ ∀ a ∈ l, P a := by
  refine (takes_decodeMany h n).mono ?_
  rintro l _ ⟨hlength, bs, hbs, -⟩
  refine ⟨hlength, fun a ha => ?_⟩
  obtain ⟨b, -, hab⟩ := forall₂_exists_right hbs ha
  exact hab

theorem takes_parts {ts : List WireType}
    (h : ∀ t ∈ ts, Reader.Takes (decode codecs t) fun v _ => HasType t v) :
    Reader.Takes (decodeTuple codecs ts) fun vs _ => HasType (.tuple ts) (.list vs) := by
  induction ts with
  | nil => exact Reader.takes_pure .noParts
  | cons t ts ih =>
    rw [List.forall_mem_cons] at h
    exact h.1.bind fun v _ hv => (ih h.2).map fun vs _ hvs => .part hv hvs

theorem takes_entries {k t : WireType}
    (hk : Reader.Takes (decode codecs k) fun v _ => HasType k v)
    (ht : Reader.Takes (decode codecs t) fun v _ => HasType t v) :
    Reader.Takes (decodeEntries codecs k t)
      fun es _ => (∀ e ∈ es, HasType k e.1) ∧ ∀ e ∈ es, HasType t e.2 := by
  have hentry : Reader.Takes (decodeEntry codecs k t)
      fun e _ => HasType k e.1 ∧ HasType t e.2 :=
    hk.bind fun v _ hv => ht.map fun w _ hw => ⟨hv, hw⟩
  refine Reader.takes_count.bind fun n _ _ => (takes_elements hentry n).mono ?_
  rintro es _ ⟨-, hes⟩
  exact ⟨fun e he => (hes e he).1, fun e he => (hes e he).2⟩

/-- What the decoder of a built-in type makes is a value of the type. -/
theorem takes_hasType {t : WireType} (ht : t.BuiltIn True) :
    Reader.Takes (decode codecs t) fun v _ => HasType t v := by
  induction ht with
  | bool => exact Reader.takes_bool.map fun x _ _ => .bool x
  | integer signed w => exact (Reader.takes_integer signed w).map fun n _ hn => .integer hn.1
  | float w => exact (Reader.takes_bits w).map fun n _ hn => .float hn.1
  | text => exact Reader.takes_text.map fun s _ _ => .text s
  | empty => exact Reader.takes_pure .empty
  | list _ ih =>
    exact Reader.takes_count.bind fun n _ _ =>
      (takes_elements ih n).map fun l _ hl => .list hl.2
  | array n _ ih =>
    rw [decode_array]
    exact (takes_elements ih n).map fun l _ hl => .array hl.1 hl.2
  | option _ ih =>
    refine Reader.takes_bool.bind fun present _ _ => ?_
    cases present with
    | true => exact ih.map fun v _ hv => .present hv
    | false => exact Reader.takes_pure (.absent _)
  | boxed _ ih => exact ih.mono fun v _ hv => .boxed hv
  | tuple _ ih => exact (takes_parts codecs ih).map fun vs _ hvs => hvs
  | orderedMap _ _ _ ihk ih =>
    rw [decode_orderedMap]
    refine (takes_entries codecs ihk ih).map fun es _ ⟨hk, ht⟩ => ?_
    obtain ⟨hlast, hasc⟩ := Value.holdsLast_sortedMap hk
    exact .orderedMap (fun e he => hk e (hlast.mem he)) (fun e he => ht e (hlast.mem he)) hasc
  | hashMap _ _ _ ihk ih =>
    rw [decode_hashMap]
    refine (takes_entries codecs ihk ih).map fun es _ ⟨hk, ht⟩ => ?_
    have hlast := Value.holdsLast_hashedMap hk
    exact .hashMap (fun e he => hk e (hlast.mem he)) (fun e he => ht e (hlast.mem he)) hlast.nodup

/-! ### What is written again -/

section Written

variable {k t : WireType} {es : List (Value × Value)}

/-- Entries are written as a list of pairs is. -/
theorem form_pairs (k t : WireType) (es : List (Value × Value)) :
    form (.list (.tuple [k, t])) (.list (es.map Value.pair)) =
      form (.orderedMap k t) (.map es) := by
  simp [form, formOfParts, Value.pair, List.flatMap_map]

theorem lengths_pairs (k t : WireType) (es : List (Value × Value)) :
    lengths (.list (.tuple [k, t])) (.list (es.map Value.pair)) =
      lengths (.orderedMap k t) (.map es) := by
  simp [lengths, lengthsOfParts, Value.pair, List.flatMap_map]

/-- Of no bytes a reader makes two values. -/
theorem Reader.Yields.unique {α : Type} {r : Reader α} {b : Bytes} {a a' : α}
    (h : Reader.Yields r b a) (h' : Reader.Yields r b a') (hb : b.length < UInt64.size) :
    a = a' := by
  have hlength : ([] ++ (b ++ [])).length < UInt64.size := by simpa using hb
  exact (EStateM.Result.ok.inj ((h [] [] hlength).symm.trans (h' [] [] hlength))).1

/-- The form of a map is read as its entries. -/
theorem yields_decodeEntries (hk : ∀ e ∈ es, HasType k e.1) (ht : ∀ e ∈ es, HasType t e.2)
    (hfits : ∀ n ∈ lengths (.orderedMap k t) (.map es), n < UInt32.size) :
    Reader.Yields (decodeEntries codecs k t) (form (.orderedMap k t) (.map es)) es := by
  simp only [lengths, List.forall_mem_cons, List.forall_mem_flatMap, List.forall_mem_append]
    at hfits
  have hentries := yields_entries codecs
    (fun e he => yields_decode codecs (hk e he) (hfits.2 e he).1)
    fun e he => yields_decode codecs (ht e he) (hfits.2 e he).2
  exact (Reader.yields_count hfits.1).bind hentries

/-- What is written for a map without order is read as the sorted map of its entries. -/
theorem readAs_orderedMap (hm : HasType (.hashMap k t) (.map es)) :
    Writer.ReadAs (encode codecs (.hashMap k t) (.map es)) (decode codecs (.orderedMap k t))
      (.map (Value.sortedMap es)) := by
  intro p p' hrun
  obtain ⟨hfits, rfl⟩ := (emits_encode codecs hm).of_eq_ok hrun
  cases hm with
  | hashMap hk ht _ =>
    rw [decode_orderedMap]
    exact ⟨_, rfl, (yields_decodeEntries codecs hk ht hfits).map _⟩

/-- What is written for a sorted map is read as the map without order of the same entries. -/
theorem readAs_hashMap (hm : HasType (.orderedMap k t) (.map es)) :
    Writer.ReadAs (encode codecs (.orderedMap k t) (.map es)) (decode codecs (.hashMap k t))
      (.map es) := by
  intro p p' hrun
  obtain ⟨hfits, rfl⟩ := (emits_encode codecs hm).of_eq_ok hrun
  cases hm with
  | orderedMap hk ht hasc =>
    have hmap := (yields_decodeEntries codecs hk ht hfits).map fun es =>
      Value.map (Value.hashedMap es)
    rw [Value.hashedMap_eq_self hk (Value.Ascending.nodup hk hasc)] at hmap
    rw [decode_hashMap]
    exact ⟨_, rfl, hmap⟩

/-- The lengths within the sorted map of a list fit if those within the list do. -/
theorem fits_sortedMap (hk : ∀ e ∈ es, HasType k e.1)
    (hfits : ∀ n ∈ lengths (.orderedMap k t) (.map es), n < UInt32.size) :
    ∀ n ∈ lengths (.orderedMap k t) (.map (Value.sortedMap es)), n < UInt32.size := by
  have hlast := (Value.holdsLast_sortedMap hk).1
  simp only [lengths, List.forall_mem_cons, List.forall_mem_flatMap] at hfits ⊢
  exact ⟨hlast.length_le.trans_lt hfits.1, fun e he => hfits.2 e (hlast.mem he)⟩

/-- A sorted map has the form of the list it was made of only if this was in its order. -/
theorem form_sortedMap_eq_iff (hk : ∀ e ∈ es, HasType k e.1) (ht : ∀ e ∈ es, HasType t e.2)
    (hfits : ∀ n ∈ lengths (.orderedMap k t) (.map es), n < UInt32.size)
    (hlength : (form (.orderedMap k t) (.map es)).length < UInt64.size) :
    form (.orderedMap k t) (.map (Value.sortedMap es)) = form (.orderedMap k t) (.map es) ↔
      Value.Ascending es := by
  have hlast := (Value.holdsLast_sortedMap hk).1
  rw [← Value.sortedMap_eq_self_iff hk]
  refine ⟨fun h => ?_, fun h => by rw [h]⟩
  -- the form is read back in one way only, as the list and as the sorted map
  have hsorted := yields_decodeEntries .none (fun e he => hk e (hlast.mem he))
    (fun e he => ht e (hlast.mem he)) (fits_sortedMap hk hfits)
  rw [h] at hsorted
  exact hsorted.unique (yields_decodeEntries .none hk ht hfits) hlength

/-- Without maps within the entries, the sorted map is written as the bytes that the list was read
from exactly if the keys ascend in the list. -/
theorem encode_sortedMap_eq_iff (hk : k.BuiltIn False) (ht : t.BuiltIn False) {i i' : Input}
    (hi : i.IsPlaced)
    (hrun : decode codecs (.list (.tuple [k, t])) i = .ok (.list (es.map Value.pair)) i') :
    ∃ n, i' = i.advance n ∧ (i.next n).length = n ∧
      ∀ p, encode codecs (.orderedMap k t) (.map (Value.sortedMap es)) p =
        .ok () (p ++ i.next n) ↔ Value.Ascending es := by
  have hpair : (WireType.tuple [k, t]).BuiltIn False := .tuple (by simp [hk, ht])
  obtain ⟨b, hb, hi', hform⟩ := takes_decode codecs (.list hpair) i _ i' hrun
  have hnext : i.next b.length = b := Input.next_eq_of_prefix hb
  refine ⟨b.length, hi', by rw [hnext], fun p => ?_⟩
  have hlength : b.length < UInt64.size := by
    have hrest := hb.length_le
    rw [Input.rest, List.length_drop] at hrest
    exact lt_of_le_of_lt (by omega) hi.2
  have hfits := hform.fits
  have hbytes := hform.bytes
  rw [lengths_pairs] at hfits
  rw [form_pairs] at hbytes
  rw [hbytes] at hlength
  cases hform.hasType with
  | list htypes =>
    have hentries : ∀ e ∈ es, HasType k e.1 ∧ HasType t e.2 := fun e he =>
      Value.hasType_pair_iff.1 (htypes _ (List.mem_map_of_mem he))
    have hkeys : ∀ e ∈ es, HasType k e.1 := fun e he => (hentries e he).1
    have hvalues : ∀ e ∈ es, HasType t e.2 := fun e he => (hentries e he).2
    obtain ⟨hlast, hasc⟩ := Value.holdsLast_sortedMap hkeys
    have hsorted : HasType (.orderedMap k t) (.map (Value.sortedMap es)) :=
      .orderedMap (fun e he => hkeys e (hlast.mem he)) (fun e he => hvalues e (hlast.mem he)) hasc
    have hwrites := (emits_encode codecs hsorted).appends (fits_sortedMap hkeys hfits) p
    rw [hnext, hwrites, hbytes, ← form_sortedMap_eq_iff hkeys hvalues hfits hlength]
    simp

end Written

/-- The decoders of both kinds of maps fail, and take bytes, as the decoder of a list of pairs does,
and make maps of the last pairs of each key.  So what is written for a map of one kind is read as
the map of the other kind with the same entries; and without maps within the entries, a sorted map
is written as it was read exactly if the keys ascended in what was read. -/
theorem marshal_entries {k t : WireType} (hk : k.BuiltIn True) (ht : t.BuiltIn True) :
    (∀ i,
      (∃ e i', decode codecs (.list (.tuple [k, t])) i = .error e i' ∧
        decode codecs (.orderedMap k t) i = .error e i' ∧
        decode codecs (.hashMap k t) i = .error e i') ∨
      ∃ es i', decode codecs (.list (.tuple [k, t])) i = .ok (.list (es.map Value.pair)) i' ∧
        decode codecs (.orderedMap k t) i = .ok (.map (Value.sortedMap es)) i' ∧
        decode codecs (.hashMap k t) i = .ok (.map (Value.hashedMap es)) i' ∧
        Value.HoldsLast es (Value.sortedMap es) ∧ Value.Ascending (Value.sortedMap es) ∧
        Value.HoldsLast es (Value.hashedMap es)) ∧
    (∀ m, HasType (.hashMap k t) (.map m) → (Value.sortedMap m).Perm m ∧
      Writer.ReadAs (encode codecs (.hashMap k t) (.map m)) (decode codecs (.orderedMap k t))
        (.map (Value.sortedMap m))) ∧
    (∀ m, HasType (.orderedMap k t) (.map m) →
      Writer.ReadAs (encode codecs (.orderedMap k t) (.map m)) (decode codecs (.hashMap k t))
        (.map m)) ∧
    (k.BuiltIn False → t.BuiltIn False → ∀ i es i', i.IsPlaced →
      decode codecs (.list (.tuple [k, t])) i = .ok (.list (es.map Value.pair)) i' →
      ∃ n, i' = i.advance n ∧ (i.next n).length = n ∧
        ∀ p, encode codecs (.orderedMap k t) (.map (Value.sortedMap es)) p =
          .ok () (p ++ i.next n) ↔ Value.Ascending es) := by
  refine ⟨fun i => ?_, fun m hm => ⟨?_, readAs_orderedMap codecs hm⟩,
    fun m hm => readAs_hashMap codecs hm,
    fun hk ht i es i' hi => encode_sortedMap_eq_iff codecs hk ht hi⟩
  · rw [decode_pairs, decode_orderedMap, decode_hashMap]
    cases hrun : decodeEntries codecs k t i with
    | error e i' =>
      exact .inl ⟨e, i', bind_eq_of_error hrun _, bind_eq_of_error hrun _, bind_eq_of_error hrun _⟩
    | ok es i' =>
      obtain ⟨-, -, -, hkeys, -⟩ :=
        takes_entries codecs (takes_hasType codecs hk) (takes_hasType codecs ht) i es i' hrun
      obtain ⟨hlast, hasc⟩ := Value.holdsLast_sortedMap hkeys
      exact .inr ⟨es, i', bind_eq_of_ok hrun _, bind_eq_of_ok hrun _, bind_eq_of_ok hrun _, hlast,
        hasc, Value.holdsLast_hashedMap hkeys⟩
  · cases hm with
    | hashMap hkeys _ hnodup => exact (Value.holdsLast_sortedMap hkeys).1.perm hnodup

/-- Three pairs, of which the first and the last have the same key, and the second one is less. -/
theorem marshal_entries_unsorted :
    decode .none (.orderedMap (.integer false .w8) .bool)
        ⟨[9, 3, 0, 0, 0, 7, 0, 3, 1, 7, 1, 5], 1⟩ =
      .ok (.map [(.integer 3, .bool true), (.integer 7, .bool true)])
        ⟨[9, 3, 0, 0, 0, 7, 0, 3, 1, 7, 1, 5], 11⟩ ∧
    decode .none (.hashMap (.integer false .w8) .bool)
        ⟨[9, 3, 0, 0, 0, 7, 0, 3, 1, 7, 1, 5], 1⟩ =
      .ok (.map [(.integer 7, .bool true), (.integer 3, .bool true)])
        ⟨[9, 3, 0, 0, 0, 7, 0, 3, 1, 7, 1, 5], 11⟩ ∧
    encode .none (.orderedMap (.integer false .w8) .bool)
        (.map [(.integer 3, .bool true), (.integer 7, .bool true)]) [] ≠
      .ok () [3, 0, 0, 0, 7, 0, 3, 1, 7, 1] := by
  let es : List (Value × Value) :=
    [(.integer 7, .bool false), (.integer 3, .bool true), (.integer 7, .bool true)]
  have hlist : decode .none (.list (.tuple [.integer false .w8, .bool]))
        ⟨[9, 3, 0, 0, 0, 7, 0, 3, 1, 7, 1, 5], 1⟩ =
      .ok (.list (es.map Value.pair)) ⟨[9, 3, 0, 0, 0, 7, 0, 3, 1, 7, 1, 5], 11⟩ := by
    rfl
  have hless : Ord.compare (3 : Int) 7 = .lt := rfl
  have hsorted : Value.sortedMap es = [(.integer 3, .bool true), (.integer 7, .bool true)] := by
    simp [es, Value.sortedMap, Value.insertSorted, Value.compare, hless,
      Std.OrientedCmp.gt_of_lt hless]
  have hhashed : Value.hashedMap es = [(.integer 7, .bool true), (.integer 3, .bool true)] := by
    simp [es, Value.hashedMap, Value.insertHashed, Value.sameKey, Value.compare]
  obtain ⟨hruns, -, -, hagain⟩ :=
    marshal_entries .none (.integer false .w8) (.bool : WireType.BuiltIn True .bool)
  obtain ⟨e, i', herror, -⟩ | ⟨es', i', hlist', hordered, hhash, -⟩ :=
    hruns ⟨[9, 3, 0, 0, 0, 7, 0, 3, 1, 7, 1, 5], 1⟩
  · cases hlist.symm.trans herror
  obtain ⟨hes, rfl⟩ := EStateM.Result.ok.inj (hlist.symm.trans hlist')
  obtain rfl : es = es' := Value.pair_injective.list_map (Value.list.inj hes)
  obtain ⟨n, hn, -, hwrites⟩ := hagain (.integer _ _) .bool _ es _ (by decide) hlist
  obtain rfl : n = 10 := by
    have hoffset := congrArg Input.offset hn
    simp only [Input.advance] at hoffset
    omega
  rw [hsorted] at hordered hwrites
  rw [hhashed] at hhash
  refine ⟨hordered, hhash, fun hsame => ?_⟩
  have hasc : Value.Ascending es := (hwrites []).1 hsame
  simp [es, Value.Ascending, Value.compare] at hasc

end Decode

end CodecForge.Wire
