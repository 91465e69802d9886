/-!
# Declarations

What is known of a type for which a codec is wanted: its names, its fields, the functions that
make its values, its methods and the types embedded in it.  Types and paths are kept as source
text; they are read where they are used.

An embedded base type is a level of its own, reached through the field that holds it.  A `TypeDecl`
is the level of the type itself with the chain of levels below it.
-/

namespace CodecForge.Schema

/-- A field of a type. -/
structure FieldDecl where
  name : String
  type : String
  isPublic : Bool := false
  /-- A member of the type and not of its values; it never travels. -/
  isStatic : Bool := false
  /-- Supplied by the caller of the decoder and not by the bytes. -/
  isDependency : Bool := false
  deriving DecidableEq, Repr

/-- A parameter of a function that makes values.  Without a type it has that of the field of the
same name. -/
structure ParamDecl where
  name : String
  type : Option String := none
  isDependency : Bool := false
  deriving DecidableEq, Repr

/-- A function that makes values of a type: a constructor or a factory.  Without a result type it
returns the type itself. -/
structure MakerDecl where
  name : String
  params : List ParamDecl := []
  returns : Option String := none
  /-- It takes no receiver. -/
  isStatic : Bool := true
  /-- It is marked as the one that decoding calls. -/
  isMarked : Bool := false
  deriving DecidableEq, Repr

/-- A method with the number of its arguments. -/
structure MethodDecl where
  name : String
  arity : Nat := 0
  deriving DecidableEq, Repr

/-- What a type declares by itself. -/
structure Level where
  name : String
  /-- The path that code names the type by, if that is not the name. -/
  path : Option String := none
  /-- The name that a codec reports for the type. -/
  qualifiedName : Option String := none
  /-- The visibility of the codec, as source text. -/
  visibility : String := "pub"
  isAbstract : Bool := false
  fields : List FieldDecl := []
  /-- The dependency of the type as a whole. -/
  dependency : Option String := none
  constructors : List MakerDecl := []
  factories : List MakerDecl := []
  methods : List MethodDecl := []
  /-- Its values are read through methods named after the fields. -/
  accessorConvention : Bool := false
  /-- The path of the canonical value. -/
  singletonInstance : Option String := none
  codecName : Option String := none
  deriving DecidableEq, Repr

/-- A base type with the field that embeds it. -/
structure Embedding where
  field : String
  base : Level
  deriving DecidableEq, Repr

/-- A type with the chain of the bases embedded in it, the nearest first. -/
structure TypeDecl extends Level where
  ancestors : List Embedding := []
  deriving DecidableEq, Repr

/-- The name that messages call a type by. -/
def Level.displayName (l : Level) : String := l.qualifiedName.getD l.name

/-- The name of the codec of a type. -/
def Level.codecIdent (l : Level) : String := l.codecName.getD (l.name ++ "Codec")

/-- The text of the path that code names a type by. -/
def Level.pathText (l : Level) : String := l.path.getD l.name

namespace TypeDecl

/-- A type of which only the name is known. -/
def named (name : String) : TypeDecl := { name }

/-- The nearest base, with the field that embeds it. -/
def parent? (d : TypeDecl) : Option (String × TypeDecl) :=
  match d.ancestors with
  | [] => none
  | e :: rest => some (e.field, { e.base with ancestors := rest })

/-- Embeds a base type in the given field, in place of any other base. -/
def withParent (d : TypeDecl) (field : String) (base : TypeDecl) : TypeDecl :=
  { d with ancestors := ⟨field, base.toLevel⟩ :: base.ancestors }

/-- Sets the fields. -/
def withFields (d : TypeDecl) (fields : List FieldDecl) : TypeDecl := { d with fields }

/-- Sets the name that a codec reports. -/
def withQualifiedName (d : TypeDecl) (name : String) : TypeDecl :=
  { d with qualifiedName := some name }

/-- Sets the dependency of the type as a whole. -/
def withDependency (d : TypeDecl) (type : String) : TypeDecl := { d with dependency := some type }

/-- Sets the path of the canonical value. -/
def withSingletonInstance (d : TypeDecl) (path : String) : TypeDecl :=
  { d with singletonInstance := some path }

/-- Declares the type abstract. -/
def asAbstract (d : TypeDecl) : TypeDecl := { d with isAbstract := true }

/-- Adds a constructor. -/
def addConstructor (d : TypeDecl) (m : MakerDecl) : TypeDecl :=
  { d with constructors := d.constructors ++ [m] }

/-- Adds a factory. -/
def addFactory (d : TypeDecl) (m : MakerDecl) : TypeDecl :=
  { d with factories := d.factories ++ [m] }

/-- Has values read through methods, of which the given ones are declared. -/
def addAccessors (d : TypeDecl) (names : List String) : TypeDecl :=
  { d with
    accessorConvention := true
    methods := d.methods ++ names.map fun name => { name } }

end TypeDecl

end CodecForge.Schema
