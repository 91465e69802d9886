import CodecForge.Proofs.Lists
import CodecForge.Proofs.Wire.Streams
import CodecForge.Wire.Marshal

/-!
# The values of each type

`HasType t v` says that `v` is a value of the built-in type `t`.  Two functions of a typed value say
how it is written: `form` gives its bytes, and `lengths` the lengths that stand in front of data
within it, in the order in which they are written.

A hash map is represented by its entries in the order in which it lists them.  `SameValue` relates
the representations of one value, which differ in the order of the entries of hash maps alone.
-/

namespace CodecForge.Wire

/-- The value is one of the type.  The keys of a sorted map ascend, and those of a hash map are
distinct. -/
inductive HasType : WireType → Value → Prop where
  | bool (b : Bool) : HasType .bool (.bool b)
  | integer {signed : Bool} {w : Width} {n : Int} :
      w.Holds signed n → HasType (.integer signed w) (.integer n)
  | float {w : Width} {bits : Nat} : bits < w.bound → HasType (.float w) (.float bits)
  | text (s : String) : HasType .text (.text s)
  | empty : HasType .empty .unit
  | list {t : WireType} {elems : List Value} :
      (∀ v ∈ elems, HasType t v) → HasType (.list t) (.list elems)
  | array {t : WireType} {n : Nat} {elems : List Value} :
      elems.length = n → (∀ v ∈ elems, HasType t v) → HasType (.array t n) (.list elems)
  | absent (t : WireType) : HasType (.option t) (.option none)
  | present {t : WireType} {v : Value} : HasType t v → HasType (.option t) (.option (some v))
  | boxed {t : WireType} {v : Value} : HasType t v → HasType (.boxed t) v
  | noParts : HasType (.tuple []) (.list [])
  | part {t : WireType} {ts : List WireType} {v : Value} {vs : List Value} :
      HasType t v → HasType (.tuple ts) (.list vs) → HasType (.tuple (t :: ts)) (.list (v :: vs))
  | orderedMap {k t : WireType} {entries : List (Value × Value)} :
      (∀ e ∈ entries, HasType k e.1) → (∀ e ∈ entries, HasType t e.2) →
      (entries.map Prod.fst).Pairwise (fun a b => Value.compare a b = .lt) →
      HasType (.orderedMap k t) (.map entries)
  | hashMap {k t : WireType} {entries : List (Value × Value)} :
      (∀ e ∈ entries, HasType k e.1) → (∀ e ∈ entries, HasType t e.2) →
      (entries.map Prod.fst).Nodup → HasType (.hashMap k t) (.map entries)

mutual

/-- The lengths of the texts, lists and maps of a value, in the order in which they are written. -/
def lengths : WireType → Value → List Nat
  | .text, .text s => [(encodeUtf8 s).length]
  | .list t, .list elems => elems.length :: elems.flatMap (lengths t)
  | .array t _, .list elems => elems.flatMap (lengths t)
  | .option t, .option (some v) => lengths t v
  | .boxed t, v => lengths t v
  | .tuple ts, .list elems => lengthsOfParts ts elems
  | .orderedMap k t, .map entries =>
    entries.length :: entries.flatMap fun e => lengths k e.1 ++ lengths t e.2
  | .hashMap k t, .map entries =>
    entries.length :: entries.flatMap fun e => lengths k e.1 ++ lengths t e.2
  | _, _ => []

/-- The lengths within the parts of a tuple. -/
def lengthsOfParts : List WireType → List Value → List Nat
  | t :: ts, v :: vs => lengths t v ++ lengthsOfParts ts vs
  | _, _ => []

end

mutual

/-- The bytes of a value. -/
def form : WireType → Value → Bytes
  | .bool, .bool b => [if b then 1 else 0]
  | .integer _ w, .integer n => littleEndian w.bytes (bitsOfInt w n)
  | .float w, .float bits => littleEndian w.bytes bits
  | .text, .text s => Writer.lengthBytes (encodeUtf8 s).length ++ encodeUtf8 s
  | .list t, .list elems => Writer.lengthBytes elems.length ++ elems.flatMap (form t)
  | .array t _, .list elems => elems.flatMap (form t)
  | .option _, .option none => [0]
  | .option t, .option (some v) => [1] ++ form t v
  | .boxed t, v => form t v
  | .tuple ts, .list elems => formOfParts ts elems
  | .orderedMap k t, .map entries =>
    Writer.lengthBytes entries.length ++ entries.flatMap fun e => form k e.1 ++ form t e.2
  | .hashMap k t, .map entries =>
    Writer.lengthBytes entries.length ++ entries.flatMap fun e => form k e.1 ++ form t e.2
  | _, _ => []

/-- The bytes of the parts of a tuple. -/
def formOfParts : List WireType → List Value → Bytes
  | t :: ts, v :: vs => form t v ++ formOfParts ts vs
  | _, _ => []

end

/-! ### Representations of one value -/

mutual

/-- The two represent one value: they differ at most in the order in which hash maps list their
entries. -/
def SameValue : WireType → Value → Value → Prop
  | .list t, .list as, .list bs => List.Forall₂ (SameValue t) as bs
  | .array t _, .list as, .list bs => List.Forall₂ (SameValue t) as bs
  | .option t, .option (some a), .option (some b) => SameValue t a b
  | .boxed t, a, b => SameValue t a b
  | .tuple ts, .list as, .list bs => SameParts ts as bs
  | .orderedMap _ t, .map as, .map bs =>
    List.Forall₂ (fun a b => a.1 = b.1 ∧ SameValue t a.2 b.2) as bs
  | .hashMap _ t, .map as, .map bs =>
    ∃ cs, as.Perm cs ∧ List.Forall₂ (fun a b => a.1 = b.1 ∧ SameValue t a.2 b.2) cs bs
  | _, a, b => a = b

/-- The two lists represent the same parts of a tuple. -/
def SameParts : List WireType → List Value → List Value → Prop
  | t :: ts, a :: as, b :: bs => SameValue t a b ∧ SameParts ts as bs
  | _, as, bs => as = bs

end

/-- What represents a value of a type is a value of the type. -/
theorem HasType.of_sameValue {t : WireType} {v w : Value} (hv : HasType t v)
    (hs : SameValue t v w) : HasType t w := by
  induction hv generalizing w with
  | bool | integer | float | text | empty =>
    simp only [SameValue] at hs
    subst hs
    constructor <;> assumption
  | list _ ih =>
    cases w <;> simp only [SameValue, reduceCtorEq] at hs
    exact .list (forall_mem_of_forall₂ hs ih)
  | array hlen _ ih =>
    cases w <;> simp only [SameValue, reduceCtorEq] at hs
    exact .array (hs.length_eq ▸ hlen) (forall_mem_of_forall₂ hs ih)
  | absent t =>
    simp only [SameValue] at hs
    subst hs
    exact .absent t
  | present _ ih =>
    rcases w with _ | _ | _ | _ | _ | _ | (_ | b) | _ | _ <;>
      simp only [SameValue, reduceCtorEq, Value.option.injEq] at hs
    exact .present (ih hs)
  | boxed _ ih =>
    simp only [SameValue] at hs
    exact .boxed (ih hs)
  | noParts =>
    cases w <;> simp only [SameValue, SameParts, reduceCtorEq] at hs
    subst hs
    exact .noParts
  | part _ _ ih ihs =>
    rcases w with _ | _ | _ | _ | _ | (_ | ⟨b, bs⟩) | _ | _ | _ <;>
      simp only [SameValue, SameParts, reduceCtorEq] at hs
    exact .part (ih hs.1) (ihs (w := .list bs) (by simpa only [SameValue] using hs.2))
  | orderedMap hk _ hord _ ih =>
    cases w <;> simp only [SameValue, reduceCtorEq] at hs
    have hkeys := map_eq_map_of_forall₂ (hs.imp fun _ _ hab => hab.1)
    refine .orderedMap (forall_mem_of_forall₂ hs fun a ha b hab => hab.1 ▸ hk a ha)
      (forall_mem_of_forall₂ hs fun a ha b hab => ih a ha hab.2) ?_
    rwa [← hkeys]
  | hashMap hk _ hnodup _ ih =>
    cases w <;> simp only [SameValue, reduceCtorEq] at hs
    obtain ⟨cs, hperm, hs⟩ := hs
    have hkeys := map_eq_map_of_forall₂ (hs.imp fun _ _ hab => hab.1)
    refine .hashMap
      (forall_mem_of_forall₂ hs fun a ha b hab => hab.1 ▸ hk a (hperm.mem_iff.2 ha))
      (forall_mem_of_forall₂ hs fun a ha b hab => ih a (hperm.mem_iff.2 ha) hab.2) ?_
    rwa [← hkeys, ← (hperm.map Prod.fst).nodup_iff]

/-- The representations of a value have the same lengths within them. -/
theorem mem_lengths_iff_of_sameValue {t : WireType} {v w : Value} (hv : HasType t v)
    (hs : SameValue t v w) (n : Nat) : n ∈ lengths t w ↔ n ∈ lengths t v := by
  induction hv generalizing w with
  | bool | integer | float | text | empty | absent =>
    simp only [SameValue] at hs
    rw [← hs]
  | list _ ih =>
    cases w <;> simp only [SameValue, reduceCtorEq] at hs
    simp only [lengths, List.mem_cons, hs.length_eq]
    rw [mem_flatMap_iff_of_forall₂ hs n ih]
  | array _ _ ih =>
    cases w <;> simp only [SameValue, reduceCtorEq] at hs
    simp only [lengths]
    rw [mem_flatMap_iff_of_forall₂ hs n ih]
  | present _ ih =>
    rcases w with _ | _ | _ | _ | _ | _ | (_ | b) | _ | _ <;>
      simp only [SameValue, reduceCtorEq, Value.option.injEq] at hs
    simp only [lengths]
    exact ih hs
  | boxed _ ih =>
    simp only [SameValue] at hs
    simp only [lengths]
    exact ih hs
  | noParts =>
    cases w <;> simp only [SameValue, SameParts, reduceCtorEq] at hs
    rw [← hs]
  | part _ _ ih ihs =>
    rcases w with _ | _ | _ | _ | _ | (_ | ⟨b, bs⟩) | _ | _ | _ <;>
      simp only [SameValue, SameParts, reduceCtorEq] at hs
    have htail := ihs (w := .list bs) (by simpa only [SameValue] using hs.2)
    simp only [lengths, lengthsOfParts, List.mem_append] at htail ⊢
    rw [ih hs.1, htail]
  | @orderedMap k t as _ _ _ _ ih =>
    cases w <;> simp only [SameValue, reduceCtorEq] at hs
    simp only [lengths, List.mem_cons, hs.length_eq]
    rw [mem_flatMap_iff_of_forall₂ (f := fun e => lengths k e.1 ++ lengths t e.2) hs n]
    intro a ha b hab
    rw [List.mem_append, List.mem_append, hab.1, ih a ha hab.2]
  | @hashMap k t as _ _ _ _ ih =>
    cases w <;> simp only [SameValue, reduceCtorEq] at hs
    obtain ⟨cs, hperm, hs⟩ := hs
    simp only [lengths, List.mem_cons, hperm.length_eq, hs.length_eq]
    rw [mem_flatMap_iff_of_forall₂ (f := fun e => lengths k e.1 ++ lengths t e.2) hs n,
      (hperm.flatMap_right _).mem_iff]
    intro a ha b hab
    rw [List.mem_append, List.mem_append, hab.1, ih a (hperm.mem_iff.2 ha) hab.2]

end CodecForge.Wire
