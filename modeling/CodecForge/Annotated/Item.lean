import CodecForge.Annotated.TypeEntries
import CodecForge.Code.Generator
import CodecForge.Source.Grammar.Declaration

/-!
# Codecs of annotated items

`deriveCodec` gives the codec of an annotated structure, and `polymorphicCodec` that of a base
trait, together with the trait itself, which has to offer its values as values of any type.
-/

namespace CodecForge.Annotated

open CodecForge.Schema CodecForge.Source CodecForge.Plan CodecForge.Code

/-- The name of the attributes that are annotations. -/
def attributeName : String := "autocodec"

/-- The tokens of a text. -/
def tokensOf (text : String) : Except Refusal Tokens :=
  match tokenize text with
  | some tokens => .ok tokens
  | none => .error .untokenized

/-- Reads all of the tokens. -/
def readItem {α : Type} (p : Grammar → Parser α) (tokens : Tokens) : Except Refusal α :=
  match readAll p tokens with
  | some a => .ok a
  | none => .error .malformed

/-- The codec of a type, for the runtime library as it is known by default. -/
def codecTokens (d : TypeDecl) (s : Strategy) : Except Refusal Tokens :=
  match (Generator.ofRuntime defaultRuntime).generate d s with
  | .ok codec => .ok codec.tokens
  | .error (.fault f) => .error (.rejected f.message)
  | .error (.aborted slot) => .error (.aborted slot.name)

/-! ### Structures -/

/-- The fields of a structure. -/
def structFields (item : TypeItem) : Except Refusal (List Field) :=
  if item.isGeneric then .error (.rejected "generic types are not supported")
  else match item.body with
    | .named fields => .ok fields
    | .unit => .ok []
    | .unnamed => .error (.rejected "only named fields are supported")
    | .other => .error (.rejected
      "only structs are supported; use #[polymorphic] on a trait for abstract types")

/-- Adds a field, with what its annotations say. -/
def addField (g : Grammar) (d : TypeDecl) (f : Field) : Except Refusal TypeDecl := do
  let field : FieldDecl :=
    { name := f.name.text, type := f.type.text, isPublic := f.visibility.isPublic }
  let t ← readAttributes attributeName (fieldEntry g f.type) ⟨d, field⟩ f.attributes
  return { t.decl with fields := t.decl.fields ++ [t.field] }

/-- What an annotated structure asks for. -/
def structTarget (g : Grammar) (item : TypeItem) : Except Refusal Target := do
  let fields ← structFields item
  let start : Target :=
    ⟨{ name := item.name.text, visibility := Token.spell item.visibility.tokens }, .instantiator⟩
  let t ← readAttributes attributeName (typeEntry g unknownStrategyMessage) start item.attributes
  return { t with decl := ← fields.foldlM (addField g) t.decl }

/-- The codec of an annotated structure. -/
def deriveCodec (text : String) : Except Refusal Tokens := do
  let tokens ← tokensOf text
  let item ← readItem Grammar.readTypeDeclaration tokens
  let t ← structTarget (Grammar.of tokens) item
  codecTokens t.decl t.strategy

/-! ### Traits -/

/-- An entry of an annotated trait. -/
def traitEntry (key : Key) (d : TypeDecl) : Reading TypeDecl := do
  match key.word? with
  | some "codec" => return { d with codecName := some (← Reading.textValue) }
  | some "name" => return d.withQualifiedName (← Reading.textValue)
  | some "dependency" => return d.withDependency (← Reading.textValue)
  | _ => Reading.reject "expected `codec`, `name` or `dependency`"

/-- The path of the trait whose values can be taken for values of any type. -/
def erasablePath : Path := PathOf.ofNames true ["autocodec", "AsAny"]

/-- A trait whose values can be taken for values of any type. -/
def makeErasable (t : TraitItem) : TraitItem :=
  if t.hasBound "AsAny" then t else t.addBound erasablePath

/-- An annotated trait and its codec. -/
def polymorphicCodec (args text : String) : Except Refusal Tokens := do
  let argTokens ← tokensOf args
  let tokens ← tokensOf text
  let item ← readItem Grammar.readTraitDeclaration tokens
  let start : TypeDecl := {
    name := item.name.text
    isAbstract := true
    visibility := Token.spell item.visibility.tokens }
  let d ← readEntries traitEntry start argTokens
  if item.isGeneric then throw (.rejected "generic traits are not supported")
  return (makeErasable item).tokens ++ (← codecTokens d .polymorphic)

end CodecForge.Annotated
