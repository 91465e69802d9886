/-!
# Files

`Files` is a tree of directories with text files in it, and `Store` what a command needs of such a
tree: it reads a file, makes the directories above one, and writes one.
-/

namespace CodecForge.Command

/-- Why an access to a file fails. -/
inductive FileError where
  | notFound
  | exists
  | notDirectory
  | isDirectory
  /-- Any other cause, with its wording. -/
  | other (message : String)
  deriving DecidableEq, Repr

/-- The wording of an error. -/
def FileError.message : FileError → String
  | .notFound => "No such file or directory (os error 2)"
  | .exists => "File exists (os error 17)"
  | .notDirectory => "Not a directory (os error 20)"
  | .isDirectory => "Is a directory (os error 21)"
  | .other message => message

/-- How files are accessed. -/
structure Store (m : Type → Type) where
  read : String → m (Except FileError String)
  /-- Makes the directory at a path and those above it, where they are missing. -/
  makeDirectory : String → m (Except FileError Unit)
  write : String → String → m (Except FileError Unit)

/-! ### Paths -/

/-- The names that a path consists of. -/
def pathNames (path : String) : List String := (path.toList.splitOn '/').map String.ofList

/-- The names of a path that tell where it leads. -/
def pathSteps (path : String) : List String :=
  (pathNames path).filter fun name => name ≠ "" && name ≠ "."

/-- The path of the directory that a path lies in: the path up to its last name.  A path of a
single name lies in the directory with the empty path. -/
def parentPath? (path : String) : Option String :=
  let names := (pathNames path).reverse.dropWhile fun name => name = "" || name = "."
  match names with
  | [] => none
  | _ :: above =>
    let above := above.dropWhile fun name => name = ""
    some ("/".intercalate above.reverse)

/-- A path that can only be that of a directory. -/
def endsInSlash (path : String) : Bool := path.toList.getLast? == some '/'

/-! ### A tree of files -/

/-- What stands at a path. -/
inductive Entry where
  | directory
  | file (text : String)
  deriving DecidableEq, Repr

/-- What stands at the paths of a tree, the latest entry first.  A path is a list of names. -/
structure Files where
  entries : List (List String × Entry) := []

namespace Files

/-- What stands at the path of the given names. -/
def find? (fs : Files) (names : List String) : Option Entry :=
  if names.isEmpty then some .directory else fs.entries.lookup names

/-- The tree with an entry. -/
def insert (fs : Files) (names : List String) (e : Entry) : Files := ⟨(names, e) :: fs.entries⟩

/-- Where the steps lead from a directory.  All but the last have to lead to directories; the last
may lead nowhere. -/
def locate (fs : Files) (here : List String) : List String → Except FileError (List String)
  | [] => .ok here
  | name :: rest =>
    let there := if name = ".." then here.dropLast else here ++ [name]
    match fs.find? there with
    | some .directory => fs.locate there rest
    | some (.file _) => if rest.isEmpty then .ok there else .error .notDirectory
    | none => if rest.isEmpty then .ok there else .error .notFound

/-- The text of the file at a path. -/
def read (fs : Files) (path : String) : Except FileError String := do
  if path = "" then throw .notFound
  match fs.find? (← fs.locate [] (pathSteps path)) with
  | none => throw .notFound
  | some .directory => throw .isDirectory
  | some (.file text) => if endsInSlash path then throw .notDirectory else return text

/-- The tree with a directory at the end of the steps and all directories above it. -/
def makeDirectories (fs : Files) (here : List String) : List String → Except FileError Files
  | [] => .ok fs
  | name :: rest =>
    let there := if name = ".." then here.dropLast else here ++ [name]
    match fs.find? there with
    | some .directory => fs.makeDirectories there rest
    | some (.file _) => .error (if rest.isEmpty then .exists else .notDirectory)
    | none => (fs.insert there .directory).makeDirectories there rest

/-- The tree with a text at a path. -/
def write (fs : Files) (path text : String) : Except FileError Files := do
  if path = "" then throw .notFound
  let names ← fs.locate [] (pathSteps path)
  if fs.find? names = some .directory || endsInSlash path then throw .isDirectory
  return fs.insert names (.file text)

/-- The tree that holds the given files. -/
def ofList (files : List (String × String)) : Files :=
  files.foldl (fun fs (path, text) =>
    let names := pathSteps path
    let above := (List.range (names.length - 1)).map fun n => names.take (n + 1)
    (above.foldl (fun fs names => fs.insert names .directory) fs).insert names (.file text)) {}

/-- The text of the file at a path, if there is one. -/
def text? (fs : Files) (path : String) : Option String := (fs.read path).toOption

/-- A tree as a store that is changed. -/
def store : Store (StateM Files) where
  read path := return (← get).read path
  makeDirectory path := modifyGet fun fs =>
    match fs.makeDirectories [] (pathSteps path) with
    | .ok fs' => (.ok (), fs')
    | .error e => (.error e, fs)
  write path text := modifyGet fun fs =>
    match fs.write path text with
    | .ok fs' => (.ok (), fs')
    | .error e => (.error e, fs)

end Files

end CodecForge.Command
