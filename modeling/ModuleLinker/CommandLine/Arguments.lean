/-!
# Arguments

A command line is read from left to right. Options that take a value take it from behind an equals
sign, from the rest of a group of short options, or from the next argument, which must not look like
an option. Each may be given once, except for patterns; a path must not be empty. Two hyphens end
the options.

The first thing wrong ends the reading, and so does a request for help or for the version; whether
everything needed is there is looked at last.
-/

namespace ModuleLinker.CommandLine

/-- Options that take a value. -/
inductive ValueOption
  | out
  | config
  | excludePattern
  | excludeFile
  | targetName
deriving DecidableEq

/-- Options that do not take a value. -/
inductive Flag
  | internalize
  | excludeSerializable
  | verbose
  | help
  | version
deriving DecidableEq

/-- An option of either kind. -/
inductive Opt
  | value (o : ValueOption)
  | flag (f : Flag)
deriving DecidableEq

/-- The options by their long names. -/
def longNames : List (String × Opt) := [
  ("out", .value .out), ("config", .value .config), ("exclude-pattern", .value .excludePattern),
  ("exclude-file", .value .excludeFile), ("target-name", .value .targetName),
  ("internalize", .flag .internalize), ("exclude-serializable", .flag .excludeSerializable),
  ("verbose", .flag .verbose), ("help", .flag .help), ("version", .flag .version)]

/-- The options by their letters. -/
def shortNames : List (Char × Opt) := [
  ('o', .value .out), ('c', .value .config), ('v', .flag .verbose), ('h', .flag .help),
  ('V', .flag .version)]

/-- The values of the options and the other arguments, as far as they have been read. -/
structure Given where
  values : List (ValueOption × String) := []
  flags : List Flag := []
  paths : List String := []
deriving DecidableEq

/-- What is wrong with a command line. -/
inductive UsageError
  | unknownOption (argument : String)
  | repeatedOption (argument : String)
  | missingValue (argument : String)
  | unexpectedValue (argument : String)
  | emptyPath
  | missingArgument (name : String)
deriving DecidableEq

/-- The text shown to the user. -/
def UsageError.message : UsageError → String
  | unknownOption argument => s!"unexpected argument '{argument}'"
  | repeatedOption argument => s!"the argument '{argument}' cannot be used multiple times"
  | missingValue argument => s!"a value is required for '{argument}'"
  | unexpectedValue argument => s!"unexpected value in '{argument}'"
  | emptyPath => "a path must not be empty"
  | missingArgument name => s!"the argument {name} is required"

/-- What ends the reading of a command line early. -/
inductive Stop
  | help
  | version
  | misuse (e : UsageError)
deriving DecidableEq

/-- Whether the value of an option is a path. -/
def ValueOption.isPath : ValueOption → Bool
  | out | config | excludeFile => true
  | excludePattern | targetName => false

/-- How an option is shown to the user. -/
def ValueOption.text (o : ValueOption) : String :=
  "--" ++ ((longNames.find? fun e ↦ e.2 = .value o).map Prod.fst).getD ""

namespace Given

/-- Take the value of an option. -/
def addValue (g : Given) (o : ValueOption) (value argument : String) : Except Stop Given :=
  if o ≠ .excludePattern && g.values.any (·.1 = o) then .error (.misuse (.repeatedOption argument))
  else if o.isPath && value = "" then .error (.misuse .emptyPath)
  else .ok { g with values := g.values ++ [(o, value)] }

/-- Take an option without a value. -/
def addFlag (g : Given) (f : Flag) (argument : String) : Except Stop Given :=
  match f with
  | .help => .error .help
  | .version => .error .version
  | .verbose => .ok { g with flags := g.flags ++ [f] }
  | _ =>
    if g.flags.contains f then .error (.misuse (.repeatedOption argument))
    else .ok { g with flags := g.flags ++ [f] }

/-- Take a path. -/
def addPath (g : Given) (path : String) : Except Stop Given :=
  if path = "" then .error (.misuse .emptyPath) else .ok { g with paths := g.paths ++ [path] }

/-- Take a long option, given what stands behind its hyphens. The answer names the option whose
value is still to come. -/
def addLong (g : Given) (body : List Char) (argument : String) :
    Except Stop (Option ValueOption × Given) :=
  let attached := (body.dropWhile (· ≠ '=')).tail?.map String.ofList
  match longNames.lookup (String.ofList (body.takeWhile (· ≠ '='))), attached with
  | none, _ => .error (.misuse (.unknownOption argument))
  | some (.flag _), some _ => .error (.misuse (.unexpectedValue argument))
  | some (.flag f), none => (g.addFlag f argument).map fun g ↦ (none, g)
  | some (.value o), some value => (g.addValue o value argument).map fun g ↦ (none, g)
  | some (.value o), none => .ok (some o, g)

/-- Take a group of short options. What stands behind an option with a value is that value. -/
def addShort (argument : String) : Given → List Char → Except Stop (Option ValueOption × Given)
  | g, [] => .ok (none, g)
  | g, c :: rest =>
    match shortNames.lookup c with
    | none => .error (.misuse (.unknownOption argument))
    | some (.flag f) => do
      let g ← g.addFlag f argument
      addShort argument g rest
    | some (.value o) =>
      match rest with
      | [] => .ok (some o, g)
      | '=' :: value => (g.addValue o (String.ofList value) argument).map fun g ↦ (none, g)
      | value => (g.addValue o (String.ofList value) argument).map fun g ↦ (none, g)

/-- Take an argument that is not the value of the option before it. -/
def addArgument (g : Given) (argument : String) : Except Stop (Option ValueOption × Given) :=
  match argument.toList with
  | '-' :: '-' :: body => g.addLong body argument
  | '-' :: c :: rest => addShort argument g (c :: rest)
  | _ => (g.addPath argument).map fun g ↦ (none, g)

/-- Whether an argument cannot be the value of the option before it. -/
def looksLikeOption (argument : String) : Bool :=
  argument ≠ "-" && argument.toList.head? = some '-'

/-- Take all arguments. `pending` is the option whose value comes next. -/
def addAll : (pending : Option ValueOption) → Given → List String → Except Stop Given
  | none, g, [] => .ok g
  | some o, _, [] => .error (.misuse (.missingValue o.text))
  | some o, g, argument :: rest =>
    if looksLikeOption argument then .error (.misuse (.missingValue o.text))
    else do
      let g ← g.addValue o argument argument
      addAll none g rest
  | none, g, argument :: rest =>
    if argument = "--" then rest.foldlM addPath g
    else do
      let (pending, g) ← g.addArgument argument
      addAll pending g rest

def value? (g : Given) (o : ValueOption) : Option String := g.values.lookup o

def has (g : Given) (f : Flag) : Bool := g.flags.contains f

end Given

/-! ## What a command line asks for -/

/-- A link that is asked for. -/
structure Arguments where
  primary : String
  secondaries : List String
  out : String
  config : Option String
  internalize : Bool
  excludePatterns : List String
  excludeFile : Option String
  excludeSerializable : Bool
  targetName : Option String
  verbosity : Nat
deriving DecidableEq

/-- The link that the given values ask for, if nothing is missing. -/
def Given.complete (g : Given) : Except Stop Arguments :=
  match g.paths, g.value? .out with
  | primary :: secondaries, some out => .ok {
      primary, secondaries, out
      config := g.value? .config
      internalize := g.has .internalize
      excludePatterns := (g.values.filter (·.1 = .excludePattern)).map Prod.snd
      excludeFile := g.value? .excludeFile
      excludeSerializable := g.has .excludeSerializable
      targetName := g.value? .targetName
      verbosity := g.flags.count .verbose }
  | [], _ => .error (.misuse (.missingArgument "<PRIMARY>"))
  | _, none => .error (.misuse (.missingArgument "--out <OUT>"))

/-- Read a command line. -/
def Arguments.ofList (arguments : List String) : Except Stop Arguments := do
  (← Given.addAll none {} arguments).complete

end ModuleLinker.CommandLine
