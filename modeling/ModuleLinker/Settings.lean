import ModuleLinker.Document.Basic
import ModuleLinker.Policy

/-!
# Settings

What a link is asked to do, besides its inputs. Settings are kept in documents; unlike a module
image, settings with a key that nobody reads are refused, because a misspelt key would otherwise go
unnoticed.
-/

namespace ModuleLinker

/-- What a link is asked to do. -/
structure Settings where
  /-- Name of the output; the primary's name when unset. -/
  targetName : Option String := none
  internalize : InternalizeRules := {}
deriving DecidableEq, Inhabited

/-- Keep the names that further patterns match public. Where the patterns came from is forgotten. -/
def Settings.withPatterns (s : Settings) (patterns : List String) : Settings :=
  let rules := s.internalize
  { s with internalize := { rules with
      excludePatterns := rules.excludePatterns ++ patterns, excludeFile := none } }

/-- Read internalization rules. -/
def InternalizeRules.ofDocument? (d : Document) : Document.Reading InternalizeRules := do
  let fields := ["enabled", "include", "exclude", "exclude-patterns", "exclude-file",
    "exclude-serializable"]
  let d ← d.record fields 0
  guard (d.hasOnlyKeys fields)
  return {
    enabled := ← d.withDefault "enabled" false
    includes := ← d.withDefault "include" []
    excludes := ← d.withDefault "exclude" []
    excludePatterns := ← d.withDefault "exclude-patterns" []
    excludeFile := ← d.optional "exclude-file"
    excludeSerializable := ← d.withDefault "exclude-serializable" false }

/-- Read settings. -/
def Settings.ofDocument? (d : Document) : Document.Reading Settings := do
  guard (d.hasOnlyKeys ["target-name", "internalize"])
  let internalize ← d.withDefault "internalize" (Document.table [])
  return {
    targetName := ← d.optional "target-name"
    internalize := ← InternalizeRules.ofDocument? internalize }

end ModuleLinker
