import ModuleLinker.Table

/-!
# Findings of a link

A link that succeeds may still have something to tell: resources that were dropped, types that were
merged into another module's type of the same name, types that were renamed. All of it is in the
report, with the counts of what was mapped.
-/

namespace ModuleLinker

/-- A resource that did not reach the output. -/
inductive Warning
  /-- Two payloads under one path; the earlier one is kept. -/
  | resourceCollision (module path : String)
  /-- A payload on one side and a directory on the other; the earlier entry is kept. -/
  | inconsistentResource (module path : String)
deriving DecidableEq

namespace Warning

def module : Warning → String
  | resourceCollision module _ | inconsistentResource module _ => module

def path : Warning → String
  | resourceCollision _ path | inconsistentResource _ path => path

/-- The text shown to the user. -/
def message : Warning → String
  | resourceCollision module path =>
    s!"Resource {path} from module '{module}' collides with an existing resource; "
      ++ "keeping the existing payload"
  | inconsistentResource module path =>
    s!"Resource {path} from module '{module}' is a leaf on one side and a directory "
      ++ "on the other; keeping the existing entry"

end Warning

/-- A type that was merged into a type declared earlier. -/
structure Conflict where
  name : String
  keptFrom : String
  mergedFrom : String
deriving DecidableEq

/-- A hidden type that was renamed because its name was taken. -/
structure Renaming where
  module : String
  name : String
  renamed : String
deriving DecidableEq

/-- How many symbols of each kind were mapped. -/
structure Counts where
  types : Nat := 0
  methods : Nat := 0
  fields : Nat := 0
  typeRefs : Nat := 0
  memberRefs : Nat := 0
  exports : Nat := 0
  resolvedExports : Nat := 0
deriving DecidableEq

/-- What a link found, apart from its result. -/
structure Report where
  warnings : List Warning := []
  conflicts : List Conflict := []
  renamed : List Renaming := []
  /-- Where the data of each module starts in the appended blob, by module name. -/
  resourceOffsets : Table String Nat := {}
  counts : Counts := {}
deriving DecidableEq

/-- Whether the user should look at the report: renaming alone is expected. -/
def Report.hasFindings (r : Report) : Bool := !r.warnings.isEmpty || !r.conflicts.isEmpty

end ModuleLinker
