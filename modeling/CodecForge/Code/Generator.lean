import CodecForge.Code.Spelling

/-!
# Generating codecs

`Generator.generate` makes the codec of one type for a strategy, and `generateBatch` those of many
requests: a request that fails is reported and the others are still served.
-/

namespace CodecForge.Code

open CodecForge.Schema CodecForge.Source CodecForge.Plan

/-- Makes codecs for a runtime library. -/
structure Generator where
  runtime : Path
  marshaller : Marshaller

/-- Why there is no codec. -/
inductive Failure where
  | fault (f : Fault)
  /-- Generation was cut short. -/
  | aborted (slot : InvalidSlot)
  deriving DecidableEq, Repr

/-- The codec of a type. -/
structure Generated where
  typeName : String
  strategy : Strategy
  codec : Ident
  encode : Tokens
  decode : Tokens
  /-- The codec as a whole. -/
  tokens : Tokens
  deriving Repr

/-- The runtime library as it is known by default. -/
def defaultRuntime : Path := PathOf.ofNames true ["autocodec"]

/-- The documentation of a codec. -/
def summary (d : TypeDecl) (s : Strategy) : String :=
  s!"Codec for `{d.name}` ({s.tag} strategy)."

/-- The name that a codec reports: the given one, or the name within the module it stands in. -/
def reportedName (d : TypeDecl) : Tokens :=
  match d.qualifiedName with
  | some name => [textLiteral name]
  | none => Token.words ":: core :: concat !" ++
    [Token.parens (Token.words ":: core :: module_path !" ++ [Token.parens []] ++
      Token.words "," ++ [.literal "\"::\""] ++ Token.words "," ++ [textLiteral d.name])]

namespace Generator

/-- The generator for a runtime library, which also marshals. -/
def ofRuntime (runtime : Path) : Generator := ⟨runtime, Marshaller.ofRuntime runtime⟩

/-- The generator for the runtime library at the path that a text spells. -/
def ofRuntimeText? (text : String) : Option Generator := (Path.parse? text).map ofRuntime

/-- The fault of a runtime path that is none. -/
def runtimeFault (text : String) : Fault := ⟨"runtime", .invalidType text⟩

/-- Lets a fault end the generation. -/
def orFault {α : Type} : Except Fault α → Except Failure α := Except.mapError .fault

/-- The codec of a type for a strategy. -/
def generate (g : Generator) (d : TypeDecl) (s : Strategy) : Except Failure Generated := do
  let type ← orFault (readPath d d.pathText)
  let plan ← orFault (select d s)
  let unit ← (CodecUnit.ofPlan type plan).mapError .aborted
  let codec ← orFault (readIdent d d.codecIdent)
  let visibility ← orFault (readOr d Visibility.parse? d.visibility)
  let frame : Frame := {
    runtime := g.runtime
    marshaller := g.marshaller
    type, codec, visibility
    summary := summary d plan.strategy
    reportedName := reportedName d }
  return {
    typeName := d.displayName
    strategy := plan.strategy
    codec
    encode := frame.encodeTokens unit
    decode := frame.decodeTokens unit
    tokens := frame.tokens unit }

end Generator

/-! ### Batches -/

/-- A request that failed, by the name of its type. -/
structure Rejection where
  typeName : String
  fault : Fault
  deriving DecidableEq, Repr

/-- What became of the requests of a batch. -/
structure Report where
  generated : List Generated := []
  failures : List Rejection := []
  deriving Repr

namespace Report

/-- Every request was served. -/
def isSuccess (r : Report) : Bool := r.failures.isEmpty

/-- All codecs, in the order of their requests. -/
def tokens (r : Report) : Tokens := r.generated.flatMap Generated.tokens

/-- How many requests were served and how many failed. -/
def summary (r : Report) : String :=
  s!"{r.generated.length} codec(s) generated, {r.failures.length} failed"

/-- The report with one more request served. -/
def addGenerated (r : Report) (g : Generated) : Report := { r with generated := r.generated ++ [g] }

/-- The report with one more request failed. -/
def addFailure (r : Report) (f : Rejection) : Report := { r with failures := r.failures ++ [f] }

end Report

namespace Generator

/-- Adds the answer to one request to a report. -/
def answer (g : Generator) (report : Report) (r : Request) : Except InvalidSlot Report :=
  match g.generate r.decl r.strategy with
  | .ok codec => .ok (report.addGenerated codec)
  | .error (.fault f) => .ok (report.addFailure ⟨r.decl.displayName, f⟩)
  | .error (.aborted slot) => .error slot

/-- Answers every request. -/
def generateBatch (g : Generator) (requests : List Request) : Except InvalidSlot Report :=
  requests.foldlM g.answer {}

end Generator

end CodecForge.Code
