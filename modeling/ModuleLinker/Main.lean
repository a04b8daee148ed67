import ModuleLinker.CommandLine.Run

/-!
# The program

Links the modules on its command line, on the files of the machine. The result is written to a file;
findings and errors go to standard error.
-/

namespace ModuleLinker

/-- Run an action that may not be possible. -/
def succeeds (action : IO Unit) : IO Bool := do
  match ← action.toBaseIO with
  | .ok () => return true
  | .error _ => return false

/-- The bytes of a file, if there is one. -/
def readBytes? (path : String) : IO (Option ByteArray) := do
  match ← (IO.FS.readBinFile path).toBaseIO with
  | .ok bytes => return some bytes
  | .error _ => return none

/-- Access to the files of the machine. -/
def machineFiles : Files IO where
  read path := do return (← readBytes? path).bind String.fromUTF8?
  isFile path := do return (← readBytes? path).isSome
  write path text := succeeds (IO.FS.writeFile path text)
  rename source target := succeeds (IO.FS.rename source target)

/-- The directory for the settings of the user's programs. -/
def userDirectory : IO (Option String) := do
  match ← IO.getEnv "XDG_CONFIG_HOME" with
  | some directory => if FilePath.isAbsolute directory then return some directory
  | none => pure ()
  return (← IO.getEnv "HOME").map fun home ↦ home ++ "/.config"

/-- The text of the help. -/
def usage : String := "Usage: linker [OPTIONS] --out <OUT> <PRIMARY> [SECONDARIES]...

Options:
  -o, --out <OUT>                Output path of the merged module
  -c, --config <CONFIG>          Settings file
      --internalize              Hide the public types of every secondary module
      --exclude-pattern <REGEX>  Keep types that match the pattern public; may be repeated
      --exclude-file <PATH>      Read further patterns from a file, one a line
      --exclude-serializable     Keep serializable and contract types public
      --target-name <NAME>       Name of the merged module
  -v, --verbose                  Say more
  -h, --help                     Print this text
  -V, --version                  Print the version"

/-- What a report tells the user. Renamings are expected, so they are told on demand only. -/
def reportLines (verbosity : Nat) (r : Report) : List String :=
  let conflicts := r.conflicts.map fun c ↦
    "Public type " ++ c.name ++ " of " ++ c.mergedFrom
      ++ " was merged into the definition from " ++ c.keptFrom
  let renamed := r.renamed.map fun x ↦
    "Renamed " ++ x.name ++ " from " ++ x.module ++ " to " ++ x.renamed
  r.warnings.map Warning.message ++ conflicts ++ if verbosity = 0 then [] else renamed

end ModuleLinker

open ModuleLinker in
def main (arguments : List String) : IO UInt32 := do
  let outcome ← CommandLine.run machineFiles (← userDirectory) arguments
  match outcome with
  | .done verbosity report => (reportLines verbosity report).forM fun line ↦ IO.eprintln line
  | .failed e => IO.eprintln ("Error: " ++ e.message)
  | .help => IO.println usage
  | .version => IO.println "linker 0.1.0"
  | .misused e => IO.eprintln ("error: " ++ e.message ++ "\n\n" ++ usage)
  return outcome.exitCode
