import CodecForge.Schema.Document
import CodecForge.Schema.Strategy

/-!
# The format of declarations

How declarations are written as documents.  `ofDocument?` reads a declaration from a document, in
which keys that have a default may be absent and further keys are ignored; `toDocument` writes it
with every key.
-/

namespace CodecForge.Schema

open Document

namespace FieldDecl

/-- The keys of a field. -/
def keys : List String := ["name", "ty", "visibility", "is_static", "is_dependency"]

/-- Whether the name of a visibility is that of a public field. -/
def publicName? : String → Option Bool
  | "public" => some true
  | "restricted" => some false
  | _ => none

/-- The field that a document describes. -/
def ofDocument? (doc : Document) : Option FieldDecl := do
  let entries ← doc.record? keys
  return {
    name := ← required entries "name" text?
    type := ← required entries "ty" text?
    isPublic := ← withDefault entries "visibility" false (choice? publicName?)
    isStatic := ← withDefault entries "is_static" false bool?
    isDependency := ← withDefault entries "is_dependency" false bool? }

/-- The field as a document. -/
def toDocument (f : FieldDecl) : Document := .mapping [
  ("name", .text f.name),
  ("ty", .text f.type),
  ("visibility", .text (if f.isPublic then "public" else "restricted")),
  ("is_static", .bool f.isStatic),
  ("is_dependency", .bool f.isDependency)]

end FieldDecl

namespace ParamDecl

/-- The keys of a parameter. -/
def keys : List String := ["name", "ty", "is_dependency"]

/-- The parameter that a document describes. -/
def ofDocument? (doc : Document) : Option ParamDecl := do
  let entries ← doc.record? keys
  return {
    name := ← required entries "name" text?
    type := ← withDefault entries "ty" none (optional? text?)
    isDependency := ← withDefault entries "is_dependency" false bool? }

/-- The parameter as a document. -/
def toDocument (p : ParamDecl) : Document := .mapping [
  ("name", .text p.name),
  ("ty", ofText? p.type),
  ("is_dependency", .bool p.isDependency)]

end ParamDecl

namespace MakerDecl

/-- The keys of a constructor or factory. -/
def keys : List String := ["name", "params", "returns", "is_static", "marked"]

/-- The constructor or factory that a document describes. -/
def ofDocument? (doc : Document) : Option MakerDecl := do
  let entries ← doc.record? keys
  return {
    name := ← required entries "name" text?
    params := ← withDefault entries "params" [] (listOf? ParamDecl.ofDocument?)
    returns := ← withDefault entries "returns" none (optional? text?)
    isStatic := ← withDefault entries "is_static" true bool?
    isMarked := ← withDefault entries "marked" false bool? }

/-- The constructor or factory as a document. -/
def toDocument (m : MakerDecl) : Document := .mapping [
  ("name", .text m.name),
  ("params", .list (m.params.map ParamDecl.toDocument)),
  ("returns", ofText? m.returns),
  ("is_static", .bool m.isStatic),
  ("marked", .bool m.isMarked)]

end MakerDecl

namespace MethodDecl

/-- The keys of a method. -/
def keys : List String := ["name", "arity"]

/-- The method that a document describes. -/
def ofDocument? (doc : Document) : Option MethodDecl := do
  let entries ← doc.record? keys
  return {
    name := ← required entries "name" text?
    arity := ← withDefault entries "arity" 0 size? }

/-- The method as a document. -/
def toDocument (m : MethodDecl) : Document := .mapping [
  ("name", .text m.name),
  ("arity", .integer m.arity)]

end MethodDecl

namespace Level

/-- The keys of a type. -/
def keys : List String :=
  ["name", "path", "qualified_name", "visibility", "is_abstract", "fields", "parent", "dependency",
   "constructors", "factories", "methods", "accessor_convention", "singleton_instance",
   "codec_name"]

/-- What a type declares by itself, read from the entries of its record. -/
def ofEntries? (entries : List (String × Document)) : Option Level := do
  return {
    name := ← required entries "name" text?
    path := ← withDefault entries "path" none (optional? text?)
    qualifiedName := ← withDefault entries "qualified_name" none (optional? text?)
    visibility := ← withDefault entries "visibility" "pub" text?
    isAbstract := ← withDefault entries "is_abstract" false bool?
    fields := ← withDefault entries "fields" [] (listOf? FieldDecl.ofDocument?)
    dependency := ← withDefault entries "dependency" none (optional? text?)
    constructors := ← withDefault entries "constructors" [] (listOf? MakerDecl.ofDocument?)
    factories := ← withDefault entries "factories" [] (listOf? MakerDecl.ofDocument?)
    methods := ← withDefault entries "methods" [] (listOf? MethodDecl.ofDocument?)
    accessorConvention := ← withDefault entries "accessor_convention" false bool?
    singletonInstance := ← withDefault entries "singleton_instance" none (optional? text?)
    codecName := ← withDefault entries "codec_name" none (optional? text?) }

/-- The entries of a type whose base is written as `parent`. -/
def toEntries (l : Level) (parent : Document) : List (String × Document) := [
  ("name", .text l.name),
  ("path", ofText? l.path),
  ("qualified_name", ofText? l.qualifiedName),
  ("visibility", .text l.visibility),
  ("is_abstract", .bool l.isAbstract),
  ("fields", .list (l.fields.map FieldDecl.toDocument)),
  ("parent", parent),
  ("dependency", ofText? l.dependency),
  ("constructors", .list (l.constructors.map MakerDecl.toDocument)),
  ("factories", .list (l.factories.map MakerDecl.toDocument)),
  ("methods", .list (l.methods.map MethodDecl.toDocument)),
  ("accessor_convention", .bool l.accessorConvention),
  ("singleton_instance", ofText? l.singletonInstance),
  ("codec_name", ofText? l.codecName)]

end Level

namespace Embedding

/-- The keys of an embedded base. -/
def keys : List String := ["field", "descriptor"]

/-- The chain of bases as a document. -/
def chainToDocument : List Embedding → Document
  | [] => .null
  | e :: rest => .mapping [
    ("field", .text e.field),
    ("descriptor", .mapping (e.base.toEntries (chainToDocument rest)))]

end Embedding

namespace TypeDecl

/-- The type that a document describes. -/
def ofDocument? (doc : Document) : Option TypeDecl := do
  match he : doc.record? Level.keys with
  | none => none
  | some entries =>
    let level ← Level.ofEntries? entries
    match hl : entries.lookup "parent" with
    | none => return { level with }
    | some .null => return { level with }
    | some link =>
      match hc : link.record? Embedding.keys with
      | none => none
      | some parts =>
        let field ← required parts "field" text?
        match hd : parts.lookup "descriptor" with
        | none => none
        | some inner =>
          have := sizeOf_lt_of_record? he hl
          have := sizeOf_lt_of_record? hc hd
          let base ← ofDocument? inner
          return { level with ancestors := ⟨field, base.toLevel⟩ :: base.ancestors }
termination_by sizeOf doc

/-- The type as a document. -/
def toDocument (d : TypeDecl) : Document :=
  .mapping (d.toEntries (Embedding.chainToDocument d.ancestors))

end TypeDecl

namespace Request

/-- The request that a document describes: the entries of the type with the strategy among
them. -/
def ofDocument? : Document → Option Request
  | .mapping entries => do
    if (entries.filter fun e => e.1 == "strategy").length > 1 then none
    let strategy ← withDefault entries "strategy" .instantiator (choice? Strategy.ofTag?)
    return ⟨strategy, ← TypeDecl.ofDocument? (.mapping entries)⟩
  | _ => none

/-- The request as a document. -/
def toDocument (r : Request) : Document :=
  .mapping (("strategy", .text r.strategy.tag) ::
    r.decl.toEntries (Embedding.chainToDocument r.decl.ancestors))

end Request

end CodecForge.Schema
