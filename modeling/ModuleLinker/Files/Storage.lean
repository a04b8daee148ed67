import ModuleLinker.Document.Parser
import ModuleLinker.Document.Printer
import ModuleLinker.Error
import ModuleLinker.Files.Basic
import ModuleLinker.Image.Format
import ModuleLinker.Settings
import ModuleLinker.Text.Blank

/-!
# What is kept in files

Modules, settings and lists of patterns are kept in files. A module that is read must be well
formed. A module is written next to its place and then moved there, so a run that fails leaves no
half of a file behind.
-/

namespace ModuleLinker

/-- Why something could not be read from a file or written to one. -/
inductive StorageError
  | unreadableModule (path : String)
  | unparsableModule (path : String)
  | invalidModule (path : String) (cause : LinkError)
  | unwritableModule (path : String)
  | unreadableSettings (path : String)
  | unparsableSettings (path : String)
  | unreadablePatterns (path : String)
deriving DecidableEq

/-- The text shown to the user. -/
def StorageError.message : StorageError → String
  | unreadableModule path => s!"Failed to read module {path}"
  | unparsableModule path => s!"Failed to parse module {path}"
  | invalidModule path cause => s!"Invalid module {path}: " ++ cause.message
  | unwritableModule path => s!"Failed to write module {path}"
  | unreadableSettings path => s!"Failed to read config file {path}"
  | unparsableSettings path => s!"Failed to parse config file {path}"
  | unreadablePatterns path => s!"Failed to read exclude file {path}"

/-! ## Texts -/

/-- The module that a text holds. -/
def Module.ofText? (text : String) : Option Module := do
  (Codec.decode? (← Document.parse text)).run .file

def Module.toText (m : Module) : String := (Codec.encode m : Document).print

/-- The settings that a text holds. -/
def Settings.ofText? (text : String) : Option Settings := do
  (Settings.ofDocument? (← Document.parse text)).run .file

/-- A line without the carriage return at its end. -/
def chompReturn (line : List Char) : List Char :=
  if line.getLast? = some '\r' then line.dropLast else line

/-- The patterns in a text, one on a line. Blank lines and lines that start with a hash sign do not
count. -/
def patternLines (text : String) : List String :=
  let lines := (text.splitOn "\n").map fun line ↦
    Text.trim (String.ofList (chompReturn line.toList))
  lines.filter fun line ↦ line ≠ "" && line.toList.head? ≠ some '#'

/-! ## Files -/

namespace Files

variable {m : Type → Type} [Monad m]

def readOr {α : Type} (fs : Files m) (path : String) (refusal : StorageError)
    (use : String → Except StorageError α) : ExceptT StorageError m α := do
  match ← fs.read path with
  | some text => ExceptT.mk (pure (use text))
  | none => throw refusal

/-- Read a module. -/
def loadModule (fs : Files m) (path : String) : ExceptT StorageError m Module :=
  fs.readOr path (.unreadableModule path) fun text ↦
    match Module.ofText? text with
    | none => .error (.unparsableModule path)
    | some module =>
      match module.validate with
      | .error cause => .error (.invalidModule path cause)
      | .ok () => .ok module

/-- Write a module. -/
def storeModule (fs : Files m) (module : Module) (path : String) : ExceptT StorageError m Unit := do
  let staging := FilePath.staging path
  unless ← fs.write staging module.toText do throw (.unwritableModule path)
  unless ← fs.rename staging path do throw (.unwritableModule path)

/-- Read a list of patterns. -/
def loadPatterns (fs : Files m) (path : String) : ExceptT StorageError m (List String) :=
  fs.readOr path (.unreadablePatterns path) fun text ↦ .ok (patternLines text)

/-- Read settings. The patterns of the file that they name, relative to their own, are added to
those they list. -/
def loadSettings (fs : Files m) (path : String) : ExceptT StorageError m Settings := do
  let settings ← fs.readOr path (.unreadableSettings path) fun text ↦
    match Settings.ofText? text with
    | some settings => .ok settings
    | none => .error (.unparsableSettings path)
  match settings.internalize.excludeFile with
  | none => return settings
  | some file =>
    let patterns ← fs.loadPatterns (FilePath.beside path file)
    return settings.withPatterns patterns

end Files

end ModuleLinker
