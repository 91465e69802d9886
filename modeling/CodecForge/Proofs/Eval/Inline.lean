import Mathlib
import CodecForge.Eval.Codec
import CodecForge.Proofs.Wire.RoundTrip

/-!
# Values that codecs write by themselves

Truth values, 32-bit integers and arrays of either are written and read by the statements of a
codec, and all other values by the codecs of their types.  For the types that a codec writes by
itself this makes no difference: the statements append the same bytes, make the same values and fail
in the same way at the same places.
-/

namespace CodecForge.Eval

open CodecForge.Source CodecForge.Plan CodecForge.Code CodecForge.Wire

/-! ### Types -/

/-- The one word that stands for a scalar. -/
def scalarName : Scalar → String
  | .bool => "bool"
  | .int32 => "i32"

/-- A scalar as a type that travels. -/
def wireScalar : Scalar → WireType
  | .bool => .bool
  | .int32 => .integer true .w32

/-- The type in source text is the scalar, in any number of brackets. -/
inductive SpellsScalar : Ty → Scalar → Prop where
  | word (rooted : Bool) (s : Scalar) {args : Arguments Ty} : args.isEmpty = true →
      SpellsScalar (.path ⟨rooted, [⟨⟨scalarName s⟩, args⟩]⟩) s
  | paren {inner : Ty} {s : Scalar} : SpellsScalar inner s → SpellsScalar (.paren inner) s
  | invisible {inner : Ty} {s : Scalar} : SpellsScalar inner s → SpellsScalar (.invisible inner) s

/-- The type in source text is a scalar or an array of scalars, in any number of brackets, where
`length` gives the lengths of arrays. -/
inductive Spells (length : Expr → Nat) : Ty → WireType → Prop where
  | scalar {type : Ty} {s : Scalar} : SpellsScalar type s → Spells length type (wireScalar s)
  | array {elem : Ty} {s : Scalar} (len : Expr) : SpellsScalar elem s →
      Spells length (.array elem len) (.array (wireScalar s) (length len))
  | paren {inner : Ty} {t : WireType} : Spells length inner t → Spells length (.paren inner) t
  | invisible {inner : Ty} {t : WireType} :
      Spells length inner t → Spells length (.invisible inner) t

/-- The type of the values that are written with the transfer, unless it leaves them to a codec. -/
def transferType? (length : Expr → Nat) : Transfer → Option WireType
  | .scalar s => some (wireScalar s)
  | .elements s len => some (.array (wireScalar s) (length len))
  | .marshalled => none

section Types

variable {length : Expr → Nat} {type : Ty} {t : WireType} {s : Scalar}

/-- A path that is not the one word of a scalar stands for a marker or a declared type. -/
theorem ofPath_cases (p : Path) :
    (∃ s, SpellsScalar (.path p) s ∧ Kind.ofPath p = .scalar s) ∨
      Kind.ofPath p = .void ∨ Kind.ofPath p = .declared := by
  obtain ⟨rooted, segments⟩ := p
  cases hlast : segments.getLast? with
  | none => exact .inr (.inr (by simp only [Kind.ofPath, hlast]))
  | some last =>
    by_cases hword : segments.length = 1 ∧ last.args.isEmpty = true ∧
      ∃ s, last.ident.text = scalarName s
    · obtain ⟨hone, hargs, s, hname⟩ := hword
      obtain ⟨a, rfl⟩ := List.length_eq_one_iff.1 hone
      obtain rfl : a = last := by simpa using hlast
      obtain ⟨⟨text⟩, args⟩ := a
      subst hname
      refine .inl ⟨s, .word rooted s hargs, ?_⟩
      cases s <;> simp_all [Kind.ofPath, scalarName]
    · refine .inr ?_
      have hname : ∀ s, ¬ (decide (last.ident.text = scalarName s) &&
          (decide (segments.length = 1) && last.args.isEmpty)) = true := by
        intro s hname
        simp only [Bool.and_eq_true, decide_eq_true_eq] at hname
        exact hword ⟨hname.2.1, hname.2.2, s, hname.1⟩
      simp only [Kind.ofPath, hlast]
      split
      · next hbool => exact absurd hbool (hname .bool)
      · split
        · next hint32 => exact absurd hint32 (hname .int32)
        · split <;> simp

theorem kind_of_spellsScalar (h : SpellsScalar type s) : Kind.of type = .ok (.scalar s) := by
  induction h with
  | word rooted s hargs => cases s <;> simp [Kind.of, Kind.ofPath, scalarName, hargs]
  | paren _ ih => rw [Kind.of, ih]
  | invisible _ ih => rw [Kind.of, ih]

/-- Induction on the types whose kind is a scalar or an array: words, arrays, and either in
brackets. -/
theorem kind_induction {motive : Ty → Prop} {kind : Kind} (hvoid : kind ≠ .void)
    (hdeclared : kind ≠ .declared)
    (word : ∀ p s, SpellsScalar (.path p) s → kind = .scalar s → motive (.path p))
    (array : ∀ elem len elemKind, Kind.of elem = .ok elemKind → kind = .array elemKind len →
      motive (.array elem len))
    (paren : ∀ inner, motive inner → motive (.paren inner))
    (invisible : ∀ inner, motive inner → motive (.invisible inner)) :
    ∀ type : Ty, Kind.of type = .ok kind → motive type
  | .path p, h => by
    rw [Kind.of, Except.ok.injEq] at h
    subst h
    obtain ⟨s, hs, hkind⟩ | hkind | hkind := ofPath_cases p
    · exact word p s hs hkind
    · exact absurd hkind hvoid
    · exact absurd hkind hdeclared
  | .qualified _ _ _, h => by
    rw [Kind.of, Except.ok.injEq] at h
    exact absurd h.symm hdeclared
  | .tuple elems _, h => by
    rw [Kind.of] at h
    obtain ⟨_, _, h⟩ := bind_eq_ok_iff.1 h
    split at h <;> cases h <;> contradiction
  | .array elem len, h => by
    rw [Kind.of] at h
    obtain ⟨elemKind, helem, h⟩ := bind_eq_ok_iff.1 h
    cases h
    exact array elem len elemKind helem rfl
  | .paren inner, h =>
    paren inner (kind_induction hvoid hdeclared word array paren invisible inner
      (by rwa [Kind.of] at h))
  | .invisible inner, h =>
    invisible inner (kind_induction hvoid hdeclared word array paren invisible inner
      (by rwa [Kind.of] at h))
  | .other _ _, h => by
    rw [Kind.of] at h
    cases h

theorem spellsScalar_of_kind (type : Ty) (h : Kind.of type = .ok (.scalar s)) :
    SpellsScalar type s := by
  refine kind_induction (motive := (SpellsScalar · s)) (by simp) (by simp) ?_ ?_
    (fun _ => .paren) (fun _ => .invisible) type h
  · rintro p s' hword ⟨⟩
    exact hword
  · rintro elem len elemKind helem ⟨⟩

theorem spells_of_kind_array {len : Expr} (type : Ty)
    (h : Kind.of type = .ok (.array (.scalar s) len)) :
    Spells length type (.array (wireScalar s) (length len)) := by
  refine kind_induction (motive := (Spells length · _)) (by simp) (by simp) ?_ ?_
    (fun _ => .paren) (fun _ => .invisible) type h
  · rintro p s' hword ⟨⟩
  · rintro elem len' elemKind helem ⟨⟩
    exact .array _ (spellsScalar_of_kind elem helem)

/-- The types that a codec writes by itself are those that spell a scalar or an array of scalars. -/
theorem spells_iff : Spells length type t ↔
    ∃ kind, Kind.of type = .ok kind ∧ transferType? length (Transfer.of kind) = some t := by
  constructor
  · intro h
    induction h with
    | scalar h => exact ⟨_, kind_of_spellsScalar h, rfl⟩
    | array len h => exact ⟨_, by rw [Kind.of, kind_of_spellsScalar h]; rfl, rfl⟩
    | paren _ ih => rwa [Kind.of]
    | invisible _ ih => rwa [Kind.of]
  · rintro ⟨kind, hkind, ht⟩
    match kind, ht with
    | .scalar s, ht =>
      cases ht
      exact .scalar (spellsScalar_of_kind type hkind)
    | .array (.scalar s) len, ht =>
      cases ht
      exact spells_of_kind_array type hkind

end Types

/-! ### Writing -/

theorem writeScalar_eq_encode (codecs : Codecs) (s : Scalar) :
    writeScalar s = encode codecs (wireScalar s) := by
  funext v
  cases s <;> cases v <;> simp [writeScalar, wireScalar, encode]

/-- The statements write a value as the codec of its type does. -/
theorem writeValue_eq_encode (m : Marshalling) (codecs : Codecs) (type : Ty) {transfer : Transfer}
    {t : WireType} (ht : transferType? m.length transfer = some t) (v : Value) :
    writeValue m type v transfer = encode codecs t v := by
  cases transfer with
  | scalar s =>
    cases ht
    rw [writeValue, writeScalar_eq_encode codecs]
  | elements s len =>
    cases ht
    rw [writeValue, writeScalar_eq_encode codecs]
    cases v <;> simp [elements, encode]
  | marshalled => cases ht

/-! ### Reading -/

theorem readScalar_eq_decode (codecs : Codecs) (s : Scalar) :
    readScalar s = decode codecs (wireScalar s) := by
  cases s <;> simp [readScalar, wireScalar, decode]

/-- The statements read a value as the codec of its type does. -/
theorem readValue_eq_decode (m : Marshalling) (codecs : Codecs) (type : Ty) {transfer : Transfer}
    {t : WireType} (ht : transferType? m.length transfer = some t) :
    readValue m type transfer = decode codecs t := by
  cases transfer with
  | scalar s =>
    cases ht
    rw [readValue, readScalar_eq_decode codecs]
  | elements s len =>
    cases ht
    rw [readValue, readScalar_eq_decode codecs, decode_array]
  | marshalled => cases ht

/-! ### Arrays as the two read them -/

/-- Sets the slots of an array to what is read, one after the other. -/
def fillSlots (read : Reader Value) (slots : List Value) : Reader (List Value) :=
  (List.range slots.length).foldlM (fun slots j => return slots.set j (← read)) slots

/-- Reads the given number of elements, and puts each behind those before it. -/
def pushElements (read : Reader Value) (n : Nat) : Reader (List Value) :=
  (List.range n).foldlM (fun elems _ => return elems ++ [← read]) []

/-- What an array is filled with before it is read. -/
def slotDefault : Scalar → Value
  | .bool => .bool false
  | .int32 => .integer 0

/-- Behind slots that are set, the rest is set to what is read next. -/
theorem foldlM_set (read : Reader Value) (done rest : List Value) :
    (List.range' done.length rest.length).foldlM (fun slots j => return slots.set j (← read))
        (done ++ rest) = do return done ++ (← decodeMany read rest.length) := by
  induction rest generalizing done with
  | nil => simp [decodeMany]
  | cons x rest ih =>
    have hset : ∀ v, (done ++ x :: rest).set done.length v = (done ++ [v]) ++ rest := by simp
    have htail : ∀ v, (List.range' (done.length + 1) rest.length).foldlM
        (fun slots j => return slots.set j (← read)) ((done ++ [v]) ++ rest) =
          do return done ++ v :: (← decodeMany read rest.length) := by
      intro v
      simpa using ih (done ++ [v])
    rw [List.length_cons, List.range'_succ, List.foldlM_cons]
    simp only [bind_assoc, pure_bind, hset, htail, decodeMany]

theorem fillSlots_eq_decodeMany (read : Reader Value) (slots : List Value) :
    fillSlots read slots = decodeMany read slots.length := by
  have hfill := foldlM_set read [] slots
  rw [List.length_nil, ← List.range_eq_range'] at hfill
  simpa [fillSlots] using hfill

/-- Behind elements that are there, as many are put as there are steps. -/
theorem foldlM_push (read : Reader Value) (steps : List Nat) (elems : List Value) :
    steps.foldlM (fun elems _ => return elems ++ [← read]) elems =
      do return elems ++ (← decodeMany read steps.length) := by
  induction steps generalizing elems with
  | nil => simp [decodeMany]
  | cons j steps ih =>
    rw [List.foldlM_cons, List.length_cons]
    simp only [bind_assoc, pure_bind, ih, decodeMany, List.append_assoc, List.singleton_append]

theorem pushElements_eq_decodeMany (read : Reader Value) (n : Nat) :
    pushElements read n = decodeMany read n := by
  simpa [pushElements] using foldlM_push read (List.range n) []

/-! ### Changing from one way to the other -/

/-- The codec that the type is left to is the one of the type that travels. -/
def LeavesTo (m : Marshalling) (codecs : Codecs) (type : Ty) (t : WireType) : Prop :=
  (∀ v, m.encode type v = encode codecs t v) ∧ m.decode type = decode codecs t

/-- Statements that write the same value in the same way can stand for each other. -/
theorem encodeSteps_congr {m : Marshalling} {type : Ty} {transfer transfer' : Transfer}
    (h : ∀ v, writeValue m type v transfer = writeValue m type v transfer') (host : Host)
    (slots : List Slot) (self : Value) (before after : List EncodeStep) (binding : Ident) :
    encodeSteps m host slots self (before ++ .write transfer type binding :: after) =
      encodeSteps m host slots self (before ++ .write transfer' type binding :: after) := by
  simp only [encodeSteps, List.foldlM_append, List.foldlM_cons, encodeStep, h]

theorem decodeSteps_congr {m : Marshalling} {type : Ty} {transfer transfer' : Transfer}
    (h : readValue m type transfer = readValue m type transfer') (host : Host)
    (dependency : Option Value) (before after : List DecodeStep) (binding : Ident)
    (outcome : Outcome) :
    decodeSteps m host dependency (before ++ .read transfer type binding :: after) outcome =
      decodeSteps m host dependency (before ++ .read transfer' type binding :: after) outcome := by
  simp only [decodeSteps, List.foldlM_append, List.foldlM_cons, decodeStep, h]

theorem ofTy?_of_spellsScalar {type : Ty} {s : Scalar} (h : SpellsScalar type s) :
    WireType.ofTy? type = some (wireScalar s) := by
  induction h with
  | @word rooted s args hargs =>
    have hnone : WireType.ofArgs? args = some [] := by
      rcases args with _ | ⟨_, _ | ⟨a, args⟩, _⟩ | _
      · rw [WireType.ofArgs?]
      · rw [WireType.ofArgs?, WireType.ofArgList?]
      · cases hargs
      · cases hargs
    rw [WireType.ofTy?, WireType.ofPath?, WireType.ofSegments?, hnone]
    cases s <;> rfl
  | paren _ ih => rw [WireType.ofTy?, ih]
  | invisible _ ih => rw [WireType.ofTy?, ih]

/-- What spells a type is read as this type, if the lengths in it are read at all. -/
theorem ofTy?_of_spells {length : Expr → Nat} {type : Ty} {t t' : WireType}
    (hlength : ∀ len n, WireType.lengthOf? len = some n → length len = n)
    (h : Spells length type t) (ht' : WireType.ofTy? type = some t') : t' = t := by
  induction h with
  | scalar hs =>
    rw [ofTy?_of_spellsScalar hs] at ht'
    exact (Option.some.inj ht').symm
  | array len hs =>
    rw [WireType.ofTy?, ofTy?_of_spellsScalar hs] at ht'
    cases hlen : WireType.lengthOf? len with
    | none =>
      rw [hlen] at ht'
      cases ht'
    | some n =>
      rw [hlen] at ht'
      cases ht'
      rw [hlength len n hlen]
  | paren _ ih => exact ih (by rwa [WireType.ofTy?] at ht')
  | invisible _ ih => exact ih (by rwa [WireType.ofTy?] at ht')

theorem leavesTo_marshallingOf (codecs : Codecs) {type : Ty} {t : WireType}
    (h : Spells (marshallingOf codecs).length type t)
    (htype : (WireType.ofTy? type).isSome = true) :
    LeavesTo (marshallingOf codecs) codecs type t := by
  obtain ⟨t', ht'⟩ := Option.isSome_iff_exists.1 htype
  obtain rfl : t' = t := ofTy?_of_spells (fun len n hn => by simp [marshallingOf, hn]) h ht'
  exact ⟨fun v => by simp only [marshallingOf, ht'], by simp only [marshallingOf, ht']⟩

/-- The types that a codec writes by itself are those that spell a scalar or an array of scalars.
For these, the statements that write and read a value do what the codec of the type does, though an
array is filled slot by slot by the ones and put together of its elements by the other; so a field
can be changed from one way to the other in any body. -/
theorem inline_agrees (m : Marshalling) (codecs : Codecs) {type : Ty} {kind : Kind}
    (hkind : Kind.of type = .ok kind) :
    (Transfer.of kind ≠ .marshalled ↔ ∃ t, Spells m.length type t) ∧
    ∀ t, Spells m.length type t →
      (∀ v, writeValue m type v (Transfer.of kind) = encode codecs t v) ∧
      readValue m type (Transfer.of kind) = decode codecs t ∧
      (∀ s len, Transfer.of kind = .elements s len →
        readValue m type (Transfer.of kind) = (do
          return .list
            (← fillSlots (readScalar s) (List.replicate (m.length len) (slotDefault s)))) ∧
        decode codecs t = do
          asArray (m.length len) (← pushElements (decode codecs (wireScalar s)) (m.length len))) ∧
      (LeavesTo m codecs type t →
        (∀ host slots self before after binding,
          encodeSteps m host slots self
              (before ++ .write (Transfer.of kind) type binding :: after) =
            encodeSteps m host slots self
              (before ++ .write .marshalled type binding :: after)) ∧
        ∀ host dependency before after binding outcome,
          decodeSteps m host dependency
              (before ++ .read (Transfer.of kind) type binding :: after) outcome =
            decodeSteps m host dependency
              (before ++ .read .marshalled type binding :: after) outcome) := by
  have hspells : ∀ t, Spells m.length type t ↔
      transferType? m.length (Transfer.of kind) = some t := by
    intro t
    rw [spells_iff]
    constructor
    · rintro ⟨kind', hkind', ht⟩
      rw [hkind] at hkind'
      cases hkind'
      exact ht
    · exact fun ht => ⟨kind, hkind, ht⟩
  refine ⟨?_, fun t ht => ?_⟩
  · simp only [hspells]
    cases Transfer.of kind <;> simp [transferType?]
  · rw [hspells] at ht
    have hwrite := writeValue_eq_encode m codecs type ht
    have hread := readValue_eq_decode m codecs type ht
    refine ⟨hwrite, hread, ?_, fun ⟨hencode, hdecode⟩ => ?_⟩
    · intro s len htransfer
      rw [htransfer] at ht
      cases ht
      constructor
      · rw [htransfer, readValue, fillSlots_eq_decodeMany, List.length_replicate]
      · rw [decode, pushElements_eq_decodeMany]
    · have hwrite' : ∀ v, writeValue m type v (Transfer.of kind) =
          writeValue m type v .marshalled := fun v => (hwrite v).trans (hencode v).symm
      have hread' : readValue m type (Transfer.of kind) = readValue m type .marshalled :=
        hread.trans hdecode.symm
      exact ⟨encodeSteps_congr hwrite', decodeSteps_congr hread'⟩

/-- Three in source text. -/
def three : Expr := ⟨[.literal "3"]⟩

/-- The type of three integers in source text. -/
def threeIntegers : Ty := .array (.path ⟨false, [⟨⟨"i32"⟩, .absent⟩]⟩) three

/-- Three integers, of which the last one is cut off: both ways fail at its first byte. -/
theorem inline_agrees_cut :
    Kind.of threeIntegers = .ok (.array (.scalar .int32) three) ∧
    readValue (marshallingOf .none) threeIntegers (.elements .int32 three)
        ⟨[1, 0, 0, 0, 255, 255, 255, 255, 7, 0], 0⟩ =
      .error (.readFailed 8 .endOfBuffer) ⟨[1, 0, 0, 0, 255, 255, 255, 255, 7, 0], 8⟩ ∧
    readValue (marshallingOf .none) threeIntegers .marshalled
        ⟨[1, 0, 0, 0, 255, 255, 255, 255, 7, 0], 0⟩ =
      .error (.readFailed 8 .endOfBuffer) ⟨[1, 0, 0, 0, 255, 255, 255, 255, 7, 0], 8⟩ := by
  have hinteger : SpellsScalar (.path ⟨false, [⟨⟨"i32"⟩, .absent⟩]⟩) .int32 :=
    .word false .int32 rfl
  have hthree : WireType.lengthOf? three = some 3 := Nat.toNat?_repr 3
  have hkind : Kind.of threeIntegers = .ok (.array (.scalar .int32) three) := by
    rw [threeIntegers, Kind.of, kind_of_spellsScalar hinteger]
    rfl
  have hlength : (marshallingOf .none).length three = 3 := by
    simp only [marshallingOf, hthree, Option.getD_some]
  have hspells : Spells (marshallingOf .none).length threeIntegers
      (.array (.integer true .w32) 3) := by
    rw [← hlength]
    exact .array three hinteger
  have htype : (WireType.ofTy? threeIntegers).isSome = true := by
    rw [threeIntegers, WireType.ofTy?, ofTy?_of_spellsScalar hinteger, hthree]
    rfl
  obtain ⟨-, hread, -⟩ := (inline_agrees (marshallingOf .none) .none hkind).2 _ hspells
  have hleaves := (leavesTo_marshallingOf .none hspells htype).2
  refine ⟨hkind, ?_, ?_⟩
  · exact (congrFun hread _).trans rfl
  · rw [readValue, hleaves]
    rfl

end CodecForge.Eval
