import CodecForge.Eval.Body

/-!
# Codecs that run

The codec that a unit describes, with the meaning of its bodies.  The codec of a base has no
statements of its own: it hands everything to the registry that it holds.
-/

namespace CodecForge.Eval

open CodecForge.Source CodecForge.Code CodecForge.Wire CodecForge.Dispatch

/-- The slots of a unit. -/
def unitSlots (u : CodecUnit) : List Slot :=
  match u.state with
  | .offsets slots => slots
  | _ => []

/-- What the encoder of a unit does. -/
def encodeUnit (m : Marshalling) (h : Host) (u : CodecUnit) (v : Value)
    (dependency : Option Value) : Writer Unit :=
  match u.encode with
  | .steps steps => encodeSteps m h (unitSlots u) v steps
  | .registry base =>
    h.registry.encode (baseName h base.tokens) (unboxed v) (erased h u.dependency dependency)

/-- What the decoder of a unit does. -/
def decodeUnit (m : Marshalling) (h : Host) (u : CodecUnit) (dependency : Option Value) :
    Reader Value :=
  match u.decode with
  | .steps steps outcome => decodeSteps m h dependency steps outcome
  | .registry base =>
    boxed <$> h.registry.decode (baseName h base.tokens) (erased h u.dependency dependency)

/-- The codec of the type `encoded` that a unit describes. -/
def objectCodec (m : Marshalling) (h : Host) (encoded : String) (u : CodecUnit) : ObjectCodec where
  typeName := h.typeName
  encoded := encoded
  dependency := u.dependency.map fun t => h.nameOf t.tokens
  encode := encodeUnit m h u
  decode := decodeUnit m h u

/-- Marshalling by the codecs of the declared types. -/
def marshallingOf (codecs : Codecs) : Marshalling where
  encode type v :=
    match WireType.ofTy? type with
    | some t => Wire.encode codecs t v
    | none => pure ()
  decode type :=
    match WireType.ofTy? type with
    | some t => Wire.decode codecs t
    | none => pure .unit
  length len := (WireType.lengthOf? len).getD 0

end CodecForge.Eval
