/-!
# Files

The files that a run can see: bytes by path, under one directory. `Files.read` walks a path from that
directory, and says why there are no bytes at its end.
-/

namespace IndexedLoop

/-- Why a file cannot be read. -/
inductive FileError where
  | notFound
  | isDirectory
  | notDirectory
deriving DecidableEq, Repr

/-- The wording of an error. -/
def FileError.text : FileError → String
  | .notFound => "No such file or directory (os error 2)"
  | .isDirectory => "Is a directory (os error 21)"
  | .notDirectory => "Not a directory (os error 20)"

/-- Files by path. A path is its list of names. -/
structure Files where
  entries : List (List String × List UInt8)

namespace Files

/-- No files. -/
def empty : Files := ⟨[]⟩

/-- Where a path starts: at the root, whose name is a slash, or where the run is. -/
def origin (path : String) : List String :=
  if path.startsWith "/" then ["/"] else []

/-- The directory around a directory. The root has none around it, and a path above where the run is
keeps its steps up. -/
def around (directory : List String) : List String :=
  match directory.getLast? with
  | none | some ".." => directory ++ [".."]
  | some "/" => directory
  | some _ => directory.dropLast

/-- The path that a name leads to from a directory. -/
def enter (directory : List String) (name : String) : List String :=
  if name = "" ∨ name = "." then directory
  else if name = ".." then around directory
  else directory ++ [name]

/-- The names on a path. -/
def names (path : String) : List String :=
  (path.splitOn "/").foldl enter (origin path)

/-- Files by paths in the usual form. -/
def ofList (files : List (String × List UInt8)) : Files :=
  ⟨files.map fun (path, bytes) => (names path, bytes)⟩

/-- The bytes of the file at a path. -/
def get? (files : Files) (path : List String) : Option (List UInt8) :=
  files.entries.lookup path

/-- The path is a directory: some file lies below it. -/
def isDirectory (files : Files) (path : List String) : Bool :=
  files.entries.any fun (p, _) => path.isPrefixOf p && p.length != path.length

/-- Walks names from a directory. -/
def walk (files : Files) (directory : List String) : List String → Except FileError (List UInt8)
  | [] => .error .isDirectory
  | name :: rest =>
    let path := enter directory name
    match files.get? path with
    | some bytes => if rest.isEmpty then .ok bytes else .error .notDirectory
    | none =>
      if path.length ≤ directory.length ∨ name = ".." ∨ files.isDirectory path then
        walk files path rest
      else .error .notFound

/-- Reads the file at a path. -/
def read (files : Files) (path : String) : Except FileError (List UInt8) :=
  if path.isEmpty then .error .notFound else walk files (origin path) (path.splitOn "/")

end Files

end IndexedLoop
