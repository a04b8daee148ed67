import ModuleLinker.CommandLine.Arguments
import ModuleLinker.Files.Storage
import ModuleLinker.Link

/-!
# Running a command line

A run finds the settings, lets the arguments change them, reads the modules, links them and writes
the result. Settings come from the file that the arguments name, or else from `repack.toml` in the
working directory, or else from the user's; without any of them the defaults hold.
-/

namespace ModuleLinker.CommandLine

/-- The file that settings are looked for in. -/
def settingsFileName : String := "repack.toml"

/-- The settings file of the user, given the directory for such files. -/
def userSettingsPath (directory : String) : String := directory ++ "/repack/" ++ settingsFileName

/-- Let the arguments change the settings. Patterns are added, and everything else is replaced. -/
def Arguments.override (a : Arguments) (filePatterns : List String) (s : Settings) : Settings :=
  let rules := s.internalize
  { targetName := a.targetName <|> s.targetName
    internalize := { rules with
      enabled := a.internalize || rules.enabled
      excludeSerializable := a.excludeSerializable || rules.excludeSerializable
      excludePatterns := rules.excludePatterns ++ a.excludePatterns ++ filePatterns } }

/-- Why a run fails. -/
inductive RunError
  | storage (e : StorageError)
  | link (e : LinkError)
deriving DecidableEq

/-- The text shown to the user. -/
def RunError.message : RunError → String
  | storage e => e.message
  | link e => "Merge failed: " ++ e.message

section Run

variable {m : Type → Type} [Monad m]

/-- The settings that apply to a run. -/
def findSettings (fs : Files m) (userDirectory : Option String) (explicit : Option String) :
    ExceptT StorageError m Settings := do
  match explicit with
  | some path => fs.loadSettings path
  | none =>
    if ← fs.isFile settingsFileName then fs.loadSettings settingsFileName
    else
      match userDirectory.map userSettingsPath with
      | none => return {}
      | some path => if ← fs.isFile path then fs.loadSettings path else return {}

/-- Read what a link needs: the settings and the modules, the primary first. -/
def gather (fs : Files m) (userDirectory : Option String) (a : Arguments) :
    ExceptT StorageError m (Settings × List Input) := do
  let settings ← findSettings fs userDirectory a.config
  let patterns ← match a.excludeFile with
    | some path => fs.loadPatterns path
    | none => pure []
  let primary ← fs.loadModule a.primary
  let secondaries ← a.secondaries.mapM fs.loadModule
  return (a.override patterns settings,
    ⟨primary, true⟩ :: secondaries.map fun module ↦ ⟨module, false⟩)

/-- Link the modules that the arguments name, and write the result. -/
def runLink (fs : Files m) (userDirectory : Option String) (a : Arguments) :
    ExceptT RunError m Report := do
  let (settings, inputs) ← (gather fs userDirectory a).adapt .storage
  match link settings inputs with
  | .error e => throw (.link e)
  | .ok linked =>
    (fs.storeModule linked.module a.out).adapt .storage
    return linked.report

/-- How a run ends. -/
inductive Outcome
  /-- The result was written; `verbosity` says how much the user wants to hear of it. -/
  | done (verbosity : Nat) (report : Report)
  | failed (e : RunError)
  | help
  | version
  | misused (e : UsageError)

/-- The exit code of a run. One that waits for an endless decision is aborted. -/
def Outcome.exitCode : Outcome → UInt32
  | done .. | help | version => 0
  | failed (.link (.endlessDecision _)) => 134
  | failed _ => 1
  | misused _ => 2

/-- Run a command line. -/
def run (fs : Files m) (userDirectory : Option String) (arguments : List String) : m Outcome := do
  match Arguments.ofList arguments with
  | .error .help => return .help
  | .error .version => return .version
  | .error (.misuse e) => return .misused e
  | .ok a =>
    match ← (runLink fs userDirectory a).run with
    | .ok report => return .done a.verbosity report
    | .error e => return .failed e

end Run

end ModuleLinker.CommandLine
