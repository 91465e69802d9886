import CodecForge.Schema.TypeDecl

/-!
# Finding a field

A field is looked for in the type itself and then in its bases, the nearest first.  What is found
comes with the path that leads to it through the embedding fields.
-/

namespace CodecForge.Plan

open CodecForge.Schema

/-- A field that was found. -/
structure Found where
  field : FieldDecl
  /-- The level that declares it. -/
  declaring : Level
  /-- The names of the fields from the value down to it. -/
  path : List String
  /-- Every field on the path is public. -/
  isPublic : Bool
  deriving Repr

/-- The first field of the given name that belongs to the values of the type. -/
def instanceField? (l : Level) (name : String) : Option FieldDecl :=
  l.fields.find? fun f => f.name == name && !f.isStatic

/-- A public field of the given name is declared. -/
def exposes (l : Level) (name : String) : Bool :=
  l.fields.any fun f => f.name == name && f.isPublic

/-- The found field as it is seen through an embedding field. -/
def Found.through (hop : String) (hopPublic : Bool) (found : Found) : Found :=
  { found with path := hop :: found.path, isPublic := hopPublic && found.isPublic }

/-- The field of the given name in a level or else in the bases below it. -/
def findFrom (name : String) (level : Level) : List Embedding → Option Found
  | [] => (instanceField? level name).map fun f => ⟨f, level, [f.name], f.isPublic⟩
  | e :: rest =>
    match instanceField? level name with
    | some f => some ⟨f, level, [f.name], f.isPublic⟩
    | none => (findFrom name e.base rest).map (Found.through e.field (exposes level e.field))

/-- The field of the given name in a type or its bases. -/
def findField (d : TypeDecl) (name : String) : Option Found :=
  findFrom name d.toLevel d.ancestors

end CodecForge.Plan
