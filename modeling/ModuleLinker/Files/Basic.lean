/-!
# Access to files

What a link reads and writes is reached through a small interface, so that the same program runs on
the files of a machine and on a tree of files in memory (`ModuleLinker.Files.Tree`).

Paths are texts with slashes. A path is relative unless it starts with one.
-/

namespace ModuleLinker

/-- Operations on files, in any monad. Writing and renaming answer whether they were possible. -/
structure Files (m : Type → Type) where
  /-- The text of a file; nothing when there is no file or no text in it. -/
  read : String → m (Option String)
  isFile : String → m Bool
  write : (path text : String) → m Bool
  /-- Move a file to another path, in place of a file that is there. -/
  rename : (source target : String) → m Bool

namespace FilePath

/-- The parts of a path between the slashes. -/
def parts (path : String) : List String := path.splitOn "/"

def isAbsolute (path : String) : Bool := path.toList.head? = some '/'

/-- A path without the slashes at its end. -/
def trimSlashes (path : String) : String :=
  String.ofList (path.toList.reverse.dropWhile (· = '/')).reverse

/-- The directory of a path, with its last slash, and the name in that directory. -/
def split (path : String) : String × String :=
  let trimmed := (trimSlashes path).toList.reverse
  (String.ofList (trimmed.dropWhile (· ≠ '/')).reverse,
    String.ofList (trimmed.takeWhile (· ≠ '/')).reverse)

/-- A path that is meant relative to the directory of another path. -/
def beside (path other : String) : String :=
  if isAbsolute other then other else (split path).1 ++ other

/-- Where a file is written before it is moved to its place: a hidden file in the same directory. -/
def staging (path : String) : String :=
  let (directory, name) := split path
  directory ++ "." ++ name ++ ".tmp"

end FilePath

end ModuleLinker
