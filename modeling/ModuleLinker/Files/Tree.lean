import ModuleLinker.Files.Basic

/-!
# Files in memory

A tree of files is a list of texts by location. A location is the list of names that lead to a file
from the root; the directories are those that some file lies in. Paths are followed name by name, so
every name but the last must be that of a directory, and nothing lies outside the root.
-/

namespace ModuleLinker

/-- Texts by location. -/
structure FileTree where
  entries : List (List String × String) := []
deriving DecidableEq

namespace FileTree

def textAt? (t : FileTree) (location : List String) : Option String := t.entries.lookup location

/-- Whether a location is the root or some file lies below it. -/
def isDirectory (t : FileTree) (location : List String) : Bool :=
  location.isEmpty || t.entries.any fun e ↦ location.isPrefixOf e.1 && location ≠ e.1

/-- Follow the parts of a path from a location. -/
def follow (t : FileTree) : List String → (location : List String) → Option (List String)
  | [], location => some location
  | part :: rest, location =>
    if !t.isDirectory location then none
    else if part = "" || part = "." then follow t rest location
    else if part = ".." then
      if location.isEmpty then none else follow t rest location.dropLast
    else follow t rest (location ++ [part])

/-- The location of a path, whether or not there is a file. -/
def locate (t : FileTree) (path : String) : Option (List String) :=
  if path = "" || FilePath.isAbsolute path then none
  else t.follow (FilePath.parts path) []

/-- The text of the file at a path. -/
def read? (t : FileTree) (path : String) : Option String := do t.textAt? (← t.locate path)

/-- Put a text at a location. -/
def put (t : FileTree) (location : List String) (text : String) : FileTree :=
  ⟨(t.entries.filter fun e ↦ e.1 ≠ location) ++ [(location, text)]⟩

/-- Write a file; its directory must be there, and the path must not be that of a directory. -/
def write? (t : FileTree) (path text : String) : Option FileTree := do
  let location ← t.locate path
  if t.isDirectory location then none else return t.put location text

/-- Move a file to another path. -/
def rename? (t : FileTree) (source target : String) : Option FileTree := do
  let location ← t.locate source
  let text ← t.textAt? location
  let moved ← t.write? target text
  if t.locate target = some location then return t
  else return ⟨moved.entries.filter fun e ↦ e.1 ≠ location⟩

/-- Perform a change if it is possible, and answer whether it was. -/
def attempt (change : FileTree → Option FileTree) : StateM FileTree Bool := fun t ↦
  match change t with
  | some t => (true, t)
  | none => (false, t)

/-- Access to a tree of files. -/
def files : Files (StateM FileTree) where
  read path := do return (← get).read? path
  isFile path := do return ((← get).read? path).isSome
  write path text := attempt fun t ↦ t.write? path text
  rename source target := attempt fun t ↦ t.rename? source target

end FileTree

end ModuleLinker
