import ModuleLinker.BlobOffset
import ModuleLinker.Import.Exports
import ModuleLinker.Import.Initializer
import ModuleLinker.Locator
import ModuleLinker.ResourceMerge
import ModuleLinker.Settings

/-!
# Linking

A link takes input modules, one of which is the primary, and makes one module of them. The types of
all modules are imported into an empty output, the initializers folded into one, the exports
resolved, the resource trees merged. Then two passes correct the code for what has moved: constants
that point into the appended blob, and locators that name a module.

A link that fails leaves nothing behind.
-/

namespace ModuleLinker

/-- The outcome of a link. -/
structure Linked where
  module : Module
  report : Report
deriving DecidableEq

namespace Registry

/-- The runtime that all modules must be compiled for; empty when the primary does not say. -/
def expectedRuntime (r : Registry) : String :=
  (r.primary?.map fun id ↦ (r.module id).runtime).getD ""

/-- Whether a module can run where the primary does. A module that does not say can. -/
def runsWithPrimary (r : Registry) (id : ModuleId) : Bool :=
  r.expectedRuntime = "" || (r.module id).runtime = "" || (r.module id).runtime = r.expectedRuntime

/-- Refuse the first module that cannot run where the primary does. -/
def checkRuntimes (r : Registry) : Except LinkError Unit :=
  match r.secondaries.find? fun id ↦ !r.runsWithPrimary id with
  | some id =>
    .error (.incompatibleRuntime (r.module id).name (r.module id).runtime r.expectedRuntime)
  | none => .ok ()

/-- The module that gives the output its identity. -/
def primaryModule (r : Registry) : Module := (r.primary?.map r.module).getD default

end Registry

namespace Context

/-- What is asked for, about the given inputs. -/
def ofSettings (settings : Settings) (registry : Registry) : Except LinkError Context := do
  let policy ← Policy.ofRules settings.internalize
  return { registry, policy, targetName := settings.targetName.getD registry.primaryModule.name }

/-- An import that has not begun. -/
def startImport (ctx : Context) : ImportState where
  target := Target.start ctx.targetName ctx.registry.primaryModule

end Context

/-- Import all modules, fold the initializers and resolve the exports. -/
def Import.all (ctx : Context) : Import Unit := do
  Import.run ctx
  Import.combineInitializers ctx
  Import.resolveExports ctx

namespace ImportState

/-- The output of an import with the merged resources, and the code corrected for what has moved. -/
def finish (s : ImportState) (ctx : Context) : Module :=
  let (resources, found) := mergeResources ctx
  let (_, shifted) := applyOffsets { s.target with resources } s.map found.offsets
  (patchLocators ctx s.map shifted).2

/-- What an import and the merge of the resources found. -/
def report (s : ImportState) (ctx : Context) : Report :=
  let found := (mergeResources ctx).2
  { warnings := found.warnings
    conflicts := s.conflicts
    renamed := s.renamed
    resourceOffsets := found.offsets.entries.foldl
      (fun byName e ↦ byName.insert (ctx.module e.1).name e.2) {}
    counts := s.map.counts }

end ImportState

/-- Link modules into one. -/
def link (settings : Settings) (inputs : List Input) : Except LinkError Linked := do
  let registry ← Registry.ofInputs inputs
  registry.checkRuntimes
  let ctx ← Context.ofSettings settings registry
  match EStateM.run (Import.all ctx) ctx.startImport with
  | .ok () s =>
    let module := { s.finish ctx with mvid := some (mvidOfHash registry.combinedHash) }
    return { module, report := s.report ctx }
  | .error e _ => throw e

end ModuleLinker
