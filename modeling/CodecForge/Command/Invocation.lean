/-!
# The command line

`Invocation.parse` tells what the arguments of the program ask for.
-/

namespace CodecForge.Command

/-- Makes the module of a manifest. -/
structure GenerateOptions where
  manifest : String
  /-- The file to write, unless it is the default one. -/
  out : Option String := none
  /-- Also print the module. -/
  print : Bool := false
  deriving DecidableEq, Repr

/-- What the arguments ask for. -/
inductive Invocation where
  | help
  | generate (options : GenerateOptions)
  | check (manifest : String)
  deriving DecidableEq, Repr

/-- Why the arguments ask for nothing. -/
inductive UsageError where
  | unknownCommand (name : String)
  | missingManifest
  | missingOutPath
  | unexpectedArgument (arg : String)
  deriving DecidableEq, Repr

/-- The wording of an error. -/
def UsageError.message : UsageError → String
  | .unknownCommand name => s!"Unknown command: {name}"
  | .missingManifest => "missing <MANIFEST> argument"
  | .missingOutPath => "--out needs a path"
  | .unexpectedArgument arg => s!"unexpected argument: {arg}"

namespace Invocation

/-- The options among the arguments of `generate`, after those that are read already.  What follows
`--out` is its path, whatever it looks like; the last path counts. -/
def options (manifest out : Option String) (print : Bool) :
    List String → Except UsageError GenerateOptions
  | [] => match manifest with
    | some manifest => .ok { manifest, out, print }
    | none => .error .missingManifest
  | "--print" :: rest => options manifest out true rest
  | arg :: rest =>
    if arg = "--out" || arg = "-o" then
      match rest with
      | path :: rest => options manifest (some path) print rest
      | [] => .error .missingOutPath
    else if manifest.isSome then .error (.unexpectedArgument arg)
    else options (some arg) out print rest

/-- The argument of `check`: the first that is no option. -/
def checked (args : List String) : Except UsageError String :=
  match args.find? fun arg => !"--".toList.isPrefixOf arg.toList with
  | some manifest => .ok manifest
  | none => .error .missingManifest

/-- What the arguments ask for. -/
def parse : List String → Except UsageError Invocation
  | [] => .ok .help
  | command :: args =>
    if command = "generate" then (options none none false args).map .generate
    else if command = "check" then (checked args).map .check
    else if command = "help" || command = "--help" || command = "-h" then .ok .help
    else .error (.unknownCommand command)

end Invocation

end CodecForge.Command
