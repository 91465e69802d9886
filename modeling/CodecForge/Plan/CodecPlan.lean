import CodecForge.Plan.Construction
import CodecForge.Schema.Strategy

/-!
# Plans of codecs

What a codec does, decided before any code is written: `select` checks a type against a strategy
and gives the values that travel, in their order, each with the way to read it and the name that
holds it.
-/

namespace CodecForge.Plan

open CodecForge.Schema CodecForge.Source

/-- A value that travels. -/
structure WireField where
  /-- The parameter or the path of the field, for messages. -/
  name : String
  /-- The local name that holds it. -/
  binding : Ident
  type : Ty
  kind : Kind
  reach : Reach
  deriving Repr

/-- The plan of a codec that calls a function to make the value. -/
structure InstantiatorPlan where
  construction : Construction
  /-- The values that travel, in the order of the parameters. -/
  wire : List WireField
  dependency : Option Ty
  deriving Repr

/-- The plan of a codec that assigns the public fields. -/
structure PublicFieldsPlan where
  /-- The public fields as they are declared, those of a base in place of its embedding field. -/
  fields : List WireField
  dependency : Option Ty
  deriving Repr

/-- The plan of a codec. -/
inductive CodecPlan where
  | instantiator (plan : InstantiatorPlan)
  | publicFields (plan : PublicFieldsPlan)
  | polymorphic (dependency : Option Ty)
  | singleton (instancePath : Path)
  deriving Repr

/-- The strategy that a plan follows. -/
def CodecPlan.strategy : CodecPlan → Strategy
  | .instantiator _ => .instantiator
  | .publicFields _ => .publicFields
  | .polymorphic _ => .polymorphic
  | .singleton _ => .singleton

/-! ### Values that are arguments -/

/-- The local name that holds an argument. -/
def argumentBinding (name : Ident) : Ident := ⟨"__" ++ name.bare⟩

/-- How an argument travels. -/
def planArgument (d : TypeDecl) (p : Param) : Except Fault WireField := do
  let name := p.name.text
  let kind ← kindOf d name p.type
  let reach ← reach d name kind
  return ⟨name, argumentBinding p.name, p.type, kind, reach⟩

/-- The plan of a codec that calls a function to make the value. -/
def planInstantiator (d : TypeDecl) : Except Fault InstantiatorPlan := do
  let construction ← resolve d
  let wire ← construction.wireParams.mapM (planArgument d)
  let dependency ← match construction.dependency? with
    | some t => pure (some t)
    | none => typeDependency d
  return ⟨construction, wire, dependency⟩

/-! ### Values that are public fields -/

/-- A public field with the path to it. -/
structure PublicPath where
  path : List Ident
  type : Ty
  kind : Kind
  deriving Repr

/-- What one field of a level gives: its value if it is public and has data, and the values of
the base if it embeds one.  `hops` leads to the level, and `base` holds the embedding field with
the collection below it. -/
def fieldPaths (d : TypeDecl) (hops : List Ident)
    (base : Option (String × (List Ident → Except Fault (List PublicPath)))) (f : FieldDecl) :
    Except Fault (List PublicPath) :=
  if f.isStatic || f.isDependency then .ok []
  else do
    let name ← readIdent d f.name
    match base.filter fun b => b.1 == f.name with
    | some (_, below) => if f.isPublic then below (hops ++ [name]) else return []
    | none =>
      if !f.isPublic then return []
      else
        let type ← readType d f.type
        let kind ← kindOf d f.name type
        if kind.isVoid then return [] else return [⟨hops ++ [name], type, kind⟩]

/-- The public fields of a level and of the bases below it. -/
def levelPaths (d : TypeDecl) (level : Level) :
    List Embedding → List Ident → Except Fault (List PublicPath)
  | [], hops => return (← level.fields.mapM (fieldPaths d hops none)).flatten
  | e :: rest, hops =>
    return (← level.fields.mapM
      (fieldPaths d hops (some (e.field, levelPaths d e.base rest)))).flatten

/-- The wire field of the public field with the given number. -/
def publicField (p : PublicPath) (index : Nat) : WireField :=
  let flat := p.path.map Ident.bare
  { name := ".".intercalate flat
    binding := ⟨s!"__{index}_" ++ "_".intercalate flat⟩
    type := p.type
    kind := p.kind
    reach := .publicField p.path }

/-- The plan of a codec that assigns the public fields. -/
def planPublicFields (d : TypeDecl) : Except Fault PublicFieldsPlan := do
  let paths ← levelPaths d d.toLevel d.ancestors []
  let dependency ← typeDependency d
  return ⟨paths.zipIdx.map fun (p, i) => publicField p i, dependency⟩

/-! ### Selection -/

/-- The text of the path of the canonical value. -/
def instanceText (d : TypeDecl) : String := d.singletonInstance.getD "INSTANCE"

/-- The plan of the codec of a type for a strategy. -/
def select (d : TypeDecl) : Strategy → Except Fault CodecPlan
  | .instantiator => return .instantiator (← planInstantiator d)
  | .publicFields => return .publicFields (← planPublicFields d)
  | .polymorphic =>
    if d.isAbstract then return .polymorphic (← typeDependency d)
    else .error (fault d .notAbstract)
  | .singleton => do
    if (← typeDependency d).isSome then throw (fault d .singletonWithDependency)
    return .singleton (← readPath d (instanceText d))

end CodecForge.Plan
