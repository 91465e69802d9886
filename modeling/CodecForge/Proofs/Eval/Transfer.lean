import CodecForge.Eval.Codec
import CodecForge.Proofs.Wire.RoundTrip

/-!
# Values of fields on the wire

A value that a codec writes by itself is read back if it has the form that its transfer stands for,
and one that is left to the codec of its type if that codec reads back what it writes.
-/

namespace CodecForge.Eval

open CodecForge.Source CodecForge.Plan CodecForge.Code CodecForge.Wire

/-! ### Scalars and elements -/

/-- The value is one of the scalar type. -/
def ScalarValue : Scalar → Value → Prop
  | .bool, v => ∃ b, v = .bool b
  | .int32, v => ∃ n, Width.Holds .w32 true n ∧ v = .integer n

theorem readAs_scalar {s : Scalar} {v : Value} (h : ScalarValue s v) :
    Writer.ReadAs (writeScalar s v) (readScalar s) v := by
  cases s with
  | bool =>
    obtain ⟨b, rfl⟩ := h
    exact (Writer.emits_bool b).readAs fun _ => (Reader.yields_bool b).map Value.bool
  | int32 =>
    obtain ⟨n, hn, rfl⟩ := h
    exact (Writer.emits_integer .w32 n).readAs fun _ => (Reader.yields_integer hn).map Value.integer

theorem readAs_many {write : Value → Writer Unit} {read : Reader Value} {l : List Value}
    (h : ∀ v ∈ l, Writer.ReadAs (write v) read v) :
    Writer.ReadAs (l.forM write) (decodeMany read l.length) l := by
  induction l with
  | nil => exact Writer.readAs_pure []
  | cons v l ih =>
    have htail := ih fun v' hv' => h v' (List.mem_cons_of_mem v hv')
    exact (h v List.mem_cons_self).bind (htail.map (v :: ·))

/-! ### Transfers -/

/-- The codecs of other types read back what they write: `values` are the values of each type. -/
def Marshalling.ReadsBack (m : Marshalling) (values : Ty → Value → Prop) : Prop :=
  ∀ type v, values type v → Writer.ReadAs (m.encode type v) (m.decode type) v

/-- The value has the form that the transfer of its type stands for. -/
def Fits (m : Marshalling) (values : Ty → Value → Prop) (type : Ty) (v : Value) :
    Transfer → Prop
  | .scalar s => ScalarValue s v
  | .elements s len =>
    ∃ elems, v = .list elems ∧ elems.length = m.length len ∧ ∀ e ∈ elems, ScalarValue s e
  | .marshalled => values type v

theorem readAs_value {m : Marshalling} {values : Ty → Value → Prop} (hm : m.ReadsBack values)
    {type : Ty} {v : Value} {transfer : Transfer} (h : Fits m values type v transfer) :
    Writer.ReadAs (writeValue m type v transfer) (readValue m type transfer) v := by
  cases transfer with
  | scalar s => exact readAs_scalar h
  | elements s len =>
    obtain ⟨elems, rfl, hlen, helems⟩ := h
    have hmany := readAs_many fun e he => readAs_scalar (helems e he)
    rw [hlen] at hmany
    exact hmany.map Value.list
  | marshalled => exact hm type v h

/-- A value that is read element by element has the length that its type names. -/
theorem length_of_readValue {m : Marshalling} {type : Ty} {s : Scalar} {len : Expr} {v : Value}
    {i i' : Input} (h : readValue m type (.elements s len) i = .ok v i') :
    (elements v).length = m.length len := by
  obtain ⟨elems, j, hmany, h⟩ := exists_of_bind_eq_ok h
  cases h
  exact length_of_decodeMany hmany

/-! ### Built-in types -/

/-- The value is one of the built-in type that the type in source text is. -/
def BuiltIn (type : Ty) (v : Value) : Prop := ∃ t, WireType.ofTy? type = some t ∧ HasType t v

theorem marshallingOf_readsBack (codecs : Codecs) : (marshallingOf codecs).ReadsBack BuiltIn := by
  rintro type v ⟨t, ht, hv⟩
  simp only [marshallingOf, ht]
  exact (emits_encode codecs hv).readAs (yields_decode codecs hv)

end CodecForge.Eval
