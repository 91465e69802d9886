import CodecForge.Annotated.Entry
import CodecForge.Schema.Strategy
import CodecForge.Source.Grammar.Field
import CodecForge.Text.Blank

/-!
# What annotations say of a type

The entries that an annotated structure and its fields may have, and how each changes the
declaration of the type.
-/

namespace CodecForge.Annotated

open CodecForge.Schema CodecForge.Source

variable (g : Grammar)

/-! ### Constructors and factories -/

/-- A parameter with its type, between the parentheses of a dependency. -/
def readDependencyParam : Reading ParamDecl := do
  let name ← Reading.parse Parser.ident
  let _ ← Reading.parse (Parser.op ":")
  return ⟨name.text, some (← Reading.type g).text, true⟩

/-- A parameter: a name, a name with its type, or a dependency. -/
def readParam (key : Key) : Reading ParamDecl := do
  if key.isWord "dependency" && (← Reading.peek (beginsGroup .paren)) then
    Reading.inParens (readDependencyParam g)
  else
    match key.word? with
    | none => throw .malformed
    | some name =>
      if ← Reading.peek (beginsOp ":") then
        let _ ← Reading.parse (Parser.op ":")
        return ⟨name, some (← Reading.type g).text, false⟩
      else return { name }

/-- An entry of a list of parameters. -/
def paramEntry (key : Key) (m : MakerDecl) : Reading MakerDecl :=
  return { m with params := m.params ++ [← readParam g key] }

/-- An entry of a constructor or factory. -/
def makerEntry (key : Key) (m : MakerDecl) : Reading MakerDecl :=
  match key.word? with
  | some "name" => return { m with name := ← Reading.textValue }
  | some "returns" => return { m with returns := some (← Reading.textValue) }
  | some "instantiator" => return { m with isMarked := true }
  | some "receiver" => return { m with isStatic := false }
  | some "params" => Reading.nested (paramEntry g) m
  | _ => Reading.reject "expected name, params, returns, instantiator or receiver"

/-- A constructor or factory. -/
def readMaker : Reading MakerDecl := do
  let m ← Reading.nested (makerEntry g) { name := "" }
  if m.name.isEmpty then Reading.reject "missing `name = \"...\"`" else return m

/-! ### Types -/

/-- A type with the strategy for it. -/
structure Target where
  decl : TypeDecl
  strategy : Strategy := .instantiator

/-- Changes the declaration of a target. -/
def Target.update (t : Target) (f : TypeDecl → TypeDecl) : Target := { t with decl := f t.decl }

/-- The names in a list that is parted by commas. -/
def nameList (text : String) : List String :=
  ((text.splitOn ",").map Text.trim).filter fun name => !name.isEmpty

/-- The strategy entry, whose message for an unknown tag is `unknown`. -/
def readStrategy (unknown : String → String) : Reading Strategy := do
  let tag ← Reading.textValue
  match Strategy.ofTag? tag with
  | some s => return s
  | none => Reading.reject (unknown tag)

/-- An entry of an annotated type. -/
def typeEntry (unknown : String → String) (key : Key) (t : Target) : Reading Target := do
  match key.word? with
  | none => Reading.reject "expected an autocodec attribute key"
  | some "strategy" => return { t with strategy := ← readStrategy unknown }
  | some "dependency" =>
    let text ← Reading.textValue
    return t.update (·.withDependency text)
  | some "codec" =>
    let text ← Reading.textValue
    return t.update fun d => { d with codecName := some text }
  | some "name" =>
    let text ← Reading.textValue
    return t.update (·.withQualifiedName text)
  | some "instance" =>
    let text ← Reading.textValue
    return t.update (·.withSingletonInstance text)
  | some "accessors" =>
    let text ← Reading.textValue
    return t.update (·.addAccessors (nameList text))
  | some "constructor" =>
    let m ← readMaker g
    return t.update (·.addConstructor m)
  | some "factory" =>
    let m ← readMaker g
    return t.update (·.addFactory m)
  | some _ =>
    Reading.reject ("unknown key; expected strategy, dependency, codec, name, instance, " ++
      "accessors, constructor or factory")

/-! ### Fields -/

/-- A field of a base type. -/
def readBaseField : Parser FieldDecl := do
  let visibility ← Grammar.readVisibility
  let name ← Parser.ident
  let _ ← Parser.op ":"
  return { name := name.text, type := (← g.type .allowed).text, isPublic := visibility.isPublic }

/-- The base type that a field of the given type embeds. -/
def readBase (type : Ty) : Reading TypeDecl := do
  match type.lastSegment? with
  | none => Reading.reject "a parent field must name a struct type"
  | some last =>
    let (fields, _) ← Reading.inParens (Reading.parse (Parser.listed (readBaseField g)))
    return { name := last.ident.text, fields }

/-- A field that is being read, with the type it belongs to. -/
structure FieldTarget where
  decl : TypeDecl
  field : FieldDecl

/-- An entry of an annotated field whose type is `type`. -/
def fieldEntry (type : Ty) (key : Key) (t : FieldTarget) : Reading FieldTarget := do
  match key.word? with
  | some "dependency" => return { t with field := { t.field with isDependency := true } }
  | some "parent" =>
    match t.decl.parent? with
    | some (other, _) =>
      Reading.reject s!"only one parent field is supported; `{other}` is already the parent"
    | none =>
      let base ← readBase g type
      return { t with decl := t.decl.withParent t.field.name base }
  | _ => Reading.reject "expected `dependency` or `parent(...)`"

end CodecForge.Annotated
