import CodecForge.Command.Run

/-!
# The program

The command line program on the files of the system.
-/

namespace CodecForge.Command

/-- The number of a cause, which may have been negated. -/
def causeNumber (code : UInt32) : UInt32 := min code (0 - code)

/-- The cause of a failed access. -/
def FileError.ofSystem : IO.Error → FileError
  | .noFileOrDirectory _ _ _ => .notFound
  | .noSuchThing _ _ _ => .notFound
  | .alreadyExists _ _ _ => .exists
  | .inappropriateType _ code details =>
    if causeNumber code = 20 then .notDirectory
    else if causeNumber code = 21 then .isDirectory
    else .other details
  | e => .other (toString e)

/-- The outcome of an access. -/
def attempt {α : Type} (action : IO α) : IO (Except FileError α) := do
  try return .ok (← action)
  catch e => return .error (FileError.ofSystem e)

/-- The files of the system. -/
def systemStore : Store IO where
  read path := attempt (IO.FS.readFile path)
  makeDirectory path := attempt (IO.FS.createDirAll path)
  write path text := attempt (IO.FS.writeFile path text)

end CodecForge.Command

open CodecForge.Command

/-- Runs the program. -/
def main (args : List String) : IO UInt32 := do
  let outcome ← run systemStore args (← IO.getEnv "AUTOCODEC_OUT")
  IO.print outcome.output
  IO.eprint outcome.errors
  return outcome.exitCode
