import CodecForge.Code.Generator
import CodecForge.Module.Manifest

/-!
# Modules of codecs

`Manifest.render` makes the module of a manifest: its text, under a header one section for each
codec, and an account of what was made and what failed.
-/

namespace CodecForge.Module

open CodecForge.Code CodecForge.Source

/-- A module and the account of it. -/
structure Rendered where
  /-- The names of the codecs. -/
  generated : List String := []
  /-- The types that failed, each with the reason. -/
  failed : List (String × String) := []
  text : String
  deriving DecidableEq, Repr

/-- Why there is no module. -/
inductive RenderError where
  | invalidRuntime (path : String)
  /-- Generation was cut short. -/
  | aborted (slot : InvalidSlot)
  deriving DecidableEq, Repr

namespace RenderError

/-- The wording of an error. -/
def message : RenderError → String
  | .invalidRuntime path =>
    s!"Invalid runtime path '{path}': {(Generator.runtimeFault path).message}"
  | .aborted slot => s!"{slot.name} is no identifier"

end RenderError

/-- The comment at the head of a module, where `source` names the manifest. -/
def header (source : String) (description : Option String) : String :=
  "// @generated by autocodec-gen. Do not edit.\n" ++ s!"// Source: {source}\n" ++
    match description with
    | none => ""
    | some text => s!"// {text}\n"

/-- The section of a codec. -/
def codecSection (g : Generated) : String :=
  s!"\n// {g.typeName} ({g.strategy.tag} strategy)\n" ++ Token.spell g.tokens ++ "\n"

namespace Rendered

/-- Every type has its codec. -/
def isSuccess (r : Rendered) : Bool := r.failed.isEmpty

/-- The module that the answers to a batch make up. -/
def ofReport (source : String) (description : Option String) (report : Report) : Rendered where
  generated := report.generated.map fun g => g.codec.text
  failed := report.failures.map fun f => (f.typeName, f.fault.message)
  text := header source description ++ String.join (report.generated.map codecSection)

end Rendered

/-- The module of a manifest, where `source` names the manifest. -/
def Manifest.render (m : Manifest) (source : String) : Except RenderError Rendered := do
  match Generator.ofRuntimeText? m.runtime with
  | none => throw (.invalidRuntime m.runtime)
  | some g =>
    let report ← (g.generateBatch m.requests).mapError .aborted
    return Rendered.ofReport source m.description report

end CodecForge.Module
