import CodecForge.Command.Files
import CodecForge.Command.Invocation
import CodecForge.Module.Rendered

/-!
# Running the program

`run` carries out what the arguments ask for on a store of files, and gives what the program prints
and how it ends.  How a manifest is read from the text of a file is a parameter of the run.
-/

namespace CodecForge.Command

open CodecForge.Module

/-- What a run of the program prints, and its exit code. -/
structure Outcome where
  output : String := ""
  errors : String := ""
  exitCode : UInt32 := 0
  deriving DecidableEq, Repr

/-- Why a run fails. -/
inductive RunError where
  | usage (e : UsageError)
  | read (path : String) (e : FileError)
  | malformed (path : String)
  | render (e : RenderError)
  | makeDirectory (e : FileError)
  | write (path : String) (e : FileError)
  deriving DecidableEq, Repr

/-- The wording of an error. -/
def RunError.message : RunError → String
  | .usage e => e.message
  | .read path e => s!"Failed to read {path}: {e.message}"
  | .malformed path => s!"Failed to parse {path}"
  | .render e => e.message
  | .makeDirectory e => s!"Failed to create output directory: {e.message}"
  | .write path e => s!"Failed to write {path}: {e.message}"

/-! ### Texts -/

/-- Lines as a text. -/
def unlines (lines : List String) : String := String.join (lines.map (· ++ "\n"))

/-- How the program is used. -/
def helpText : String := unlines [
  "autocodec-gen v0.3.0",
  "",
  "USAGE:",
  "    autocodec-gen <COMMAND> [OPTIONS]",
  "",
  "COMMANDS:",
  "    generate <MANIFEST> [--out <FILE>] [--print]",
  "                   Generate codecs for every type in a YAML manifest",
  "    check <MANIFEST> Validate a manifest without writing anything",
  "    help           Print this help message",
  "",
  "ENVIRONMENT:",
  "    AUTOCODEC_OUT  Default output file (autocodec_generated.rs)",
  "",
  "EXAMPLES:",
  "    autocodec-gen generate codecs.yaml --out src/codecs.rs",
  "    autocodec-gen check codecs.yaml",
  ""]

/-- The rule above and below a heading. -/
def ruler : String := String.ofList (List.replicate 60 '=')

/-- The account of a module, which may have been written to a file. -/
def reportText (r : Rendered) (writtenTo : Option String) : String := unlines <|
  ["", ruler, "  Codec Generation Report", ruler, "",
    s!"  [OK] Generated:    {r.generated.length} codec(s)"] ++
  r.generated.map (s!"    - {·}") ++
  (if r.isSuccess then []
    else s!"  [FAIL] Rejected:   {r.failed.length} type(s)" ::
      r.failed.map fun f => s!"    - {f.1}: {f.2}") ++
  (match writtenTo with
    | none => []
    | some path => ["", s!"  Written to: {path}"]) ++
  ["", ruler]

/-- The file that is written by default. -/
def defaultOut : String := "autocodec_generated.rs"

/-! ### Steps -/

section

variable {m : Type → Type} [Monad m]

/-- The module of the manifest in a file. -/
def renderFile (store : Store m) (parse? : String → Option Manifest) (path : String) :
    ExceptT RunError m Rendered := do
  let text ← ExceptT.mk (return (← store.read path).mapError (.read path))
  match parse? text with
  | none => throw (.malformed path)
  | some manifest => ExceptT.mk (return (manifest.render path).mapError .render)

/-- Writes a module to a file, in a directory that is made if it is missing. -/
def writeModule (store : Store m) (path : String) (r : Rendered) : ExceptT RunError m Unit := do
  match parentPath? path with
  | none => pure ()
  | some "" => pure ()
  | some parent =>
    ExceptT.mk (return (← store.makeDirectory parent).mapError .makeDirectory)
  ExceptT.mk (return (← store.write path r.text).mapError (.write path))

/-- How a run that gave an account of a module ends. -/
def reported (r : Rendered) (output : String) : Outcome :=
  { output, exitCode := if r.isSuccess then 0 else 1 }

/-- Does what the arguments ask for; `outFile` is the file that is written unless they name one. -/
def perform (store : Store m) (parse? : String → Option Manifest) (outFile : String) :
    Invocation → ExceptT RunError m Outcome
  | .help => return { output := helpText }
  | .check manifest => do
    let r ← renderFile store parse? manifest
    return reported r (reportText r none)
  | .generate options => do
    let out := options.out.getD outFile
    let r ← renderFile store parse? options.manifest
    writeModule store out r
    let printed := if options.print then r.text ++ "\n" else ""
    return reported r (printed ++ reportText r (some out))

/-- The end of a run that fails. -/
def failed : RunError → Outcome
  | .usage (.unknownCommand name) => {
      output := helpText
      errors := unlines [(UsageError.unknownCommand name).message]
      exitCode := 1 }
  | .render (.aborted slot) => {
      errors := unlines [(RenderError.aborted slot).message]
      exitCode := 101 }
  | e => { errors := unlines ["[ERROR] " ++ e.message], exitCode := 1 }

/-- A run with the given arguments, where `outFile` replaces the default file. -/
def run (store : Store m) (args : List String) (outFile : Option String)
    (parse? : String → Option Manifest := Manifest.parse?) : m Outcome := do
  let attempt : ExceptT RunError m Outcome := do
    let invocation ← ExceptT.mk (return (Invocation.parse args).mapError .usage)
    perform store parse? (outFile.getD defaultOut) invocation
  match ← attempt.run with
  | .ok outcome => return outcome
  | .error e => return failed e

end

end CodecForge.Command
