/-!
# Documents

A `Document` is a tree of scalars, lists and mappings, as a data file holds it.  A record is written
as a mapping from its keys, or as the list of its values in the order of the keys; either form may
leave out what has a default.
-/

namespace CodecForge.Schema

/-- A tree of scalars, lists and mappings.  A number with a fraction or an exponent keeps its
text. -/
inductive Document where
  | null
  | bool (b : Bool)
  | integer (n : Int)
  | decimal (text : String)
  | text (s : String)
  | list (items : List Document)
  | mapping (entries : List (String × Document))
  deriving Repr, Inhabited

namespace Document

/-- The text that a document is. -/
def text? : Document → Option String
  | .text s => some s
  | _ => none

/-- The truth value that a document is. -/
def bool? : Document → Option Bool
  | .bool b => some b
  | _ => none

/-- The size that a document is: a whole number of 64 bits. -/
def size? : Document → Option Nat
  | .integer n => if 0 ≤ n && n < UInt64.size then some n.toNat else none
  | _ => none

/-- The list that a document is, each of whose members `read` accepts. -/
def listOf? {α : Type} (read : Document → Option α) : Document → Option (List α)
  | .list items => items.mapM read
  | _ => none

/-- Nothing for the null document, and otherwise what `read` accepts. -/
def optional? {α : Type} (read : Document → Option α) : Document → Option (Option α)
  | .null => some none
  | d => (read d).map some

/-- One of several names: the name as a text, or as the only key of a mapping with a null value. -/
def choice? {α : Type} (read : String → Option α) : Document → Option α
  | .text s => read s
  | .mapping [(s, .null)] => read s
  | _ => none

/-- The optional text as a document. -/
def ofText? : Option String → Document
  | none => .null
  | some s => .text s

/-- The entries of a record with the given keys, none of which may stand twice. -/
def record? (keys : List String) : Document → Option (List (String × Document))
  | .mapping entries =>
    if keys.all fun k => (entries.filter fun e => e.1 == k).length ≤ 1 then some entries else none
  | .list items => if items.length ≤ keys.length then some (keys.zip items) else none
  | _ => none

/-- The value of a key that has to be there. -/
def required {α : Type} (entries : List (String × Document)) (key : String)
    (read : Document → Option α) : Option α :=
  (entries.lookup key).bind read

/-- The value of a key, or a default where the key is absent. -/
def withDefault {α : Type} (entries : List (String × Document)) (key : String) (default : α)
    (read : Document → Option α) : Option α :=
  match entries.lookup key with
  | none => some default
  | some d => read d

theorem sizeOf_lt_of_lookup {entries : List (String × Document)} {key : String} {d : Document}
    (h : entries.lookup key = some d) : sizeOf d < sizeOf entries := by
  induction entries with
  | nil => simp at h
  | cons e rest ih =>
    obtain ⟨k, v⟩ := e
    rw [List.lookup_cons] at h
    split at h
    · simp only [Option.some.injEq] at h
      subst h
      simp only [List.cons.sizeOf_spec, Prod.mk.sizeOf_spec]
      omega
    · have := ih h
      simp only [List.cons.sizeOf_spec]
      omega

theorem sizeOf_lt_of_lookup_zip {keys : List String} {items : List Document} {key : String}
    {d : Document} (h : (keys.zip items).lookup key = some d) : sizeOf d < sizeOf items := by
  induction keys generalizing items with
  | nil => simp at h
  | cons k keys ih =>
    cases items with
    | nil => simp at h
    | cons v rest =>
      rw [List.zip_cons_cons, List.lookup_cons] at h
      split at h
      · simp only [Option.some.injEq] at h
        subst h
        simp only [List.cons.sizeOf_spec]
        omega
      · have := ih h
        simp only [List.cons.sizeOf_spec]
        omega

/-- What stands under a key of a record is smaller than the record. -/
theorem sizeOf_lt_of_record? {keys : List String} {doc : Document}
    {entries : List (String × Document)} {key : String} {d : Document}
    (hr : doc.record? keys = some entries) (h : entries.lookup key = some d) :
    sizeOf d < sizeOf doc := by
  cases doc with
  | mapping es =>
    simp only [record?] at hr
    split at hr
    · simp only [Option.some.injEq] at hr
      subst hr
      have := sizeOf_lt_of_lookup h
      simp only [mapping.sizeOf_spec]
      omega
    · simp at hr
  | list items =>
    simp only [record?] at hr
    split at hr
    · simp only [Option.some.injEq] at hr
      subst hr
      have := sizeOf_lt_of_lookup_zip h
      simp only [list.sizeOf_spec]
      omega
    · simp at hr
  | _ => simp [record?] at hr

end Document

end CodecForge.Schema
