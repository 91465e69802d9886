import CodecForge.Annotated.Item
import CodecForge.Eval.Codec

/-!
# Samples

A sample is a structure declared in source text, with annotations, together with what the code of
its codec refers to: its methods, the function that makes its values, and its default and canonical
values.  The codec of a sample is generated from its declaration and run.
-/

namespace CodecForge.Sample

open CodecForge.Schema CodecForge.Source CodecForge.Plan CodecForge.Code CodecForge.Wire
open CodecForge.Dispatch CodecForge.Eval

/-- A declared structure and the functions that come with it. -/
structure Specimen where
  /-- Its declaration. -/
  source : String
  /-- The result of a constructor or factory. -/
  make : List (String × Value) → Except String Value := fun args => .ok (.record args)
  default : Value := .unit
  canonical : Value := .unit
  /-- Fields without data that are left out where values are shown. -/
  hidden : List String := []

/-- A sample with its declaration and the unit of its codec. -/
structure Prepared where
  sample : Specimen
  decl : TypeDecl
  unit : CodecUnit

namespace Specimen

/-- Reads the declaration of a sample and generates its codec. -/
def prepare? (s : Specimen) : Option Prepared := do
  let tokens ← tokenize s.source
  let item ← readAll Grammar.readTypeDeclaration tokens
  let target ← (Annotated.structTarget (Grammar.of tokens) item).toOption
  let type ← (readPath target.decl target.decl.pathText).toOption
  let plan ← (select target.decl target.strategy).toOption
  let unit ← (CodecUnit.ofPlan type plan).toOption
  return ⟨s, target.decl, unit⟩

end Specimen

namespace Prepared

/-- The name of the type. -/
def name (p : Prepared) : String := p.decl.name

/-- The name that the codec reports in a module. -/
def reportedName (p : Prepared) (modulePath : String) : String :=
  p.decl.qualifiedName.getD (modulePath ++ "::" ++ p.name)

/-- The fields of the values as they are shown, with their types. -/
def shape (p : Prepared) : List (String × WireType) :=
  p.decl.fields.filterMap fun f => do
    let name := (Ident.mk f.name).bare
    if p.sample.hidden.contains name then none
    else return (name, ← WireType.ofTy? (← Ty.parse? f.type))

/-- The name of the field that a method without arguments gives. -/
def fieldOfMethod (method : String) : String :=
  if "is_".isPrefixOf method then (method.drop 3).toString else method

/-- What the code of the codec refers to. -/
def host (p : Prepared) (modulePath : String) : Host where
  typeName := p.reportedName modulePath
  method method v := v.field (fieldOfMethod method.bare)
  make maker args :=
    let named := args.map fun a => (a.1.bare, a.2)
    match maker with
    | .structLiteral => .ok (.record named)
    | .associated _ => p.sample.make named
  default := p.sample.default
  canonical := p.sample.canonical
  nameOf type := modulePath ++ "::" ++ Token.spell type

/-- The codec of a sample, given those of the types of its fields. -/
def codec (p : Prepared) (modulePath : String) (codecs : Codecs) : ObjectCodec :=
  objectCodec (marshallingOf codecs) (p.host modulePath) p.name p.unit

end Prepared

end CodecForge.Sample
