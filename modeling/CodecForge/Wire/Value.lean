/-!
# Values

The values that codecs carry.  A value of a declared type is a record of its fields, and the
entries of a map are pairs of a key and a value.  `Value.compare` is the order of keys.
-/

namespace CodecForge.Wire

/-- A value. -/
inductive Value where
  | unit
  | bool (b : Bool)
  | integer (n : Int)
  /-- A number with fraction, as its bits. -/
  | float (bits : Nat)
  | text (s : String)
  /-- The elements of a list, an array or a tuple. -/
  | list (elems : List Value)
  | option (v : Option Value)
  | map (entries : List (Value × Value))
  | record (fields : List (String × Value))
  deriving Repr, Inhabited

namespace Value

/-- The place of a form in the order of values of different forms. -/
def rank : Value → Nat
  | unit => 0
  | bool _ => 1
  | integer _ => 2
  | float _ => 3
  | text _ => 4
  | list _ => 5
  | option _ => 6
  | map _ => 7
  | record _ => 8

mutual

/-- The order of values: false before true, numbers and texts in their own order, sequences by
their first difference, and an absent value before all others. -/
def compare : Value → Value → Ordering
  | unit, unit => .eq
  | bool a, bool b => Ord.compare a.toNat b.toNat
  | integer a, integer b => Ord.compare a b
  | float a, float b => Ord.compare a b
  | text a, text b => Ord.compare a b
  | list as, list bs => compareAll as bs
  | option none, option none => .eq
  | option none, option (some _) => .lt
  | option (some _), option none => .gt
  | option (some a), option (some b) => compare a b
  | map as, map bs => compareEntries as bs
  | record as, record bs => compareFields as bs
  | a, b => Ord.compare a.rank b.rank

/-- The order of sequences. -/
def compareAll : List Value → List Value → Ordering
  | [], [] => .eq
  | [], _ :: _ => .lt
  | _ :: _, [] => .gt
  | a :: as, b :: bs => (compare a b).then (compareAll as bs)

/-- The order of entries. -/
def compareEntries : List (Value × Value) → List (Value × Value) → Ordering
  | [], [] => .eq
  | [], _ :: _ => .lt
  | _ :: _, [] => .gt
  | (k, v) :: as, (k', v') :: bs =>
    ((compare k k').then (compare v v')).then (compareEntries as bs)

/-- The order of fields. -/
def compareFields : List (String × Value) → List (String × Value) → Ordering
  | [], [] => .eq
  | [], _ :: _ => .lt
  | _ :: _, [] => .gt
  | (_, v) :: as, (_, v') :: bs => (compare v v').then (compareFields as bs)

end

/-- The two values are the same key. -/
def sameKey (a b : Value) : Bool := compare a b == .eq

/-! ### Maps -/

/-- Puts an entry into a map that is sorted by its keys, in place of one with the same key. -/
def insertSorted (key value : Value) : List (Value × Value) → List (Value × Value)
  | [] => [(key, value)]
  | (k, v) :: rest =>
    match compare key k with
    | .lt => (key, value) :: (k, v) :: rest
    | .eq => (k, value) :: rest
    | .gt => (k, v) :: insertSorted key value rest

/-- Puts an entry into a map without order, in place of one with the same key. -/
def insertHashed (key value : Value) : List (Value × Value) → List (Value × Value)
  | [] => [(key, value)]
  | (k, v) :: rest =>
    if sameKey key k then (k, value) :: rest else (k, v) :: insertHashed key value rest

/-- The sorted map of entries, of which later ones replace earlier ones. -/
def sortedMap (entries : List (Value × Value)) : List (Value × Value) :=
  entries.foldl (fun m e => insertSorted e.1 e.2 m) []

/-- The map without order of entries, of which later ones replace earlier ones. -/
def hashedMap (entries : List (Value × Value)) : List (Value × Value) :=
  entries.foldl (fun m e => insertHashed e.1 e.2 m) []

/-! ### Records -/

/-- The field of a record; what has no such field has the unit in its place. -/
def field (name : String) : Value → Value
  | record fields => (fields.lookup name).getD unit
  | _ => unit

/-- The field at a path. -/
def fieldAt (path : List String) (v : Value) : Value := path.foldl (fun v name => v.field name) v

/-- Changes the field of a record, if it is there. -/
def modifyField (name : String) (f : Value → Value) : Value → Value
  | record fields => record (fields.map fun e => if e.1 == name then (e.1, f e.2) else e)
  | v => v

/-- Sets the field at a path. -/
def setAt (x : Value) : List String → Value → Value
  | [], _ => x
  | name :: rest, v => v.modifyField name (setAt x rest)

/-- The record with the given fields. -/
def ofFields (fields : List (String × Value)) : Value := record fields

end Value

end CodecForge.Wire
