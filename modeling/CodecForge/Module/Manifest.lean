import CodecForge.Schema.Format
import CodecForge.Yaml.Node

/-!
# Manifests

A `Manifest` lists the types for which a module of codecs is made.  `Manifest.parse?` reads it from
text in which the keys are words and no anchors, aliases, tags or directives occur.  What runs on
manifests takes the reader as a parameter.
-/

namespace CodecForge.Module

open CodecForge.Schema CodecForge.Yaml

/-- What a module of codecs is made from. -/
structure Manifest where
  /-- The path of the runtime library. -/
  runtime : String := "::autocodec"
  description : Option String := none
  requests : List Request
  deriving Repr

namespace Manifest

/-- How deep the collections of a manifest may lie within each other. -/
def depthLimit : Nat := 128

/-- The document of an entry of a request.  The strategy is a name, whatever else its scalar might
stand for. -/
def entryDocument? (key : String) (value : Node) : Option Document :=
  if key = "strategy" then value.text?.map .text else value.document?

/-- The request that a node describes. -/
def request? (node : Node) : Option Request := do
  let fields ← node.fields?
  Request.ofDocument? (.mapping (← fields.mapM fun (key, value) =>
    return (key, ← entryDocument? key value)))

/-- The optional text that a node is. -/
def optionalText? : Node → Option (Option String)
  | .scalar s => some (if s.isNull then none else some s.text)
  | _ => none

/-- The requests that a node lists, at depth one in a manifest. -/
def requests? (node : Node) : Option (List Request) := do
  if node.depth < depthLimit then (← node.items?).mapM request? else none

/-- The only value of a key; a second one is refused. -/
def single? (fields : List (String × Node)) (key : String) : Option (Option Node) :=
  match fields.filter fun f => f.1 == key with
  | [] => some none
  | [f] => some (some f.2)
  | _ => none

/-- The manifest that a node describes.  Further keys are ignored. -/
def ofNode? (node : Node) : Option Manifest := do
  let fields ← node.fields?
  let runtime ← match ← single? fields "runtime" with
    | none => some "::autocodec"
    | some value => value.text?
  let description ← match ← single? fields "description" with
    | none => some none
    | some value => optionalText? value
  return { runtime, description, requests := ← requests? (← (← single? fields "codecs")) }

/-- The manifest that a text describes. -/
def parse? (text : String) : Option Manifest := (Node.parse? text).bind ofNode?

end Manifest

end CodecForge.Module
