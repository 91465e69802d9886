import CodecForge.Wire.Bytes
import CodecForge.Source.Type

/-!
# Types that travel

The types whose values have a form as bytes: truth values, numbers, text and what is built of
them.  A declared type is known by its name.  `WireType.ofTy?` reads such a type from source text.
-/

namespace CodecForge.Wire

open CodecForge.Source

/-- A type whose values travel. -/
inductive WireType where
  | bool
  | integer (signed : Bool) (w : Width)
  | float (w : Width)
  | text
  /-- A type without data. -/
  | empty
  | list (elem : WireType)
  | array (elem : WireType) (n : Nat)
  | option (elem : WireType)
  /-- A value behind a pointer that owns it. -/
  | boxed (elem : WireType)
  | tuple (elems : List WireType)
  | orderedMap (key value : WireType)
  | hashMap (key value : WireType)
  | named (name : String)
  deriving Repr, Inhabited

namespace WireType

/-- The type that a plain name stands for. -/
def ofName : String → WireType
  | "bool" => .bool
  | "u8" => .integer false .w8
  | "i8" => .integer true .w8
  | "u16" => .integer false .w16
  | "i16" => .integer true .w16
  | "u32" => .integer false .w32
  | "i32" => .integer true .w32
  | "u64" => .integer false .w64
  | "i64" => .integer true .w64
  | "f32" => .float .w32
  | "f64" => .float .w64
  | "String" => .text
  | name => .named name

/-- The type that a name with arguments stands for. -/
def ofArguments : String → List WireType → Option WireType
  | "PhantomData", [_] => some .empty
  | "Vec", [t] => some (.list t)
  | "Option", [t] => some (.option t)
  | "Box", [t] => some (.boxed t)
  | "Arc", [t] => some (.boxed t)
  | "BTreeMap", [k, v] => some (.orderedMap k v)
  | "HashMap", [k, v] => some (.hashMap k v)
  | name, [] => some (ofName name)
  | _, _ => none

/-- The length that a number in source text is. -/
def lengthOf? (len : Expr) : Option Nat :=
  match len.tokens with
  | [.literal digits] => digits.toNat?
  | _ => none

mutual

/-- The type that a type in source text is, if its values travel. -/
def ofTy? : Ty → Option WireType
  | .path p => ofPath? p
  | .tuple elems _ => do
    let types ← ofTys? elems
    return if types.isEmpty then .empty else .tuple types
  | .array elem len => return .array (← ofTy? elem) (← lengthOf? len)
  | .paren inner => ofTy? inner
  | .invisible inner => ofTy? inner
  | _ => none

/-- The types that the types of a list are. -/
def ofTys? : List Ty → Option (List WireType)
  | [] => some []
  | t :: rest => return (← ofTy? t) :: (← ofTys? rest)

/-- The type that a path stands for, which is known by the last name. -/
def ofPath? : PathOf Ty → Option WireType
  | ⟨_, segments⟩ => ofSegments? segments

/-- The type that the last segment of a path stands for. -/
def ofSegments? : List (Segment Ty) → Option WireType
  | [] => none
  | [⟨name, args⟩] => do ofArguments name.bare (← ofArgs? args)
  | _ :: rest => ofSegments? rest

/-- The types that arguments stand for. -/
def ofArgs? : Arguments Ty → Option (List WireType)
  | .absent => some []
  | .angled _ args _ => ofArgList? args
  | .signature _ => none

/-- The types that the arguments of a list stand for. -/
def ofArgList? : List (GenericArg Ty) → Option (List WireType)
  | [] => some []
  | .type t :: rest => return (← ofTy? t) :: (← ofArgList? rest)
  | _ :: _ => none

end

end WireType

end CodecForge.Wire
