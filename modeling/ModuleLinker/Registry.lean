import ModuleLinker.Error
import ModuleLinker.Identity

/-!
# The input modules of a link

The registry holds the input modules in input order. A module is known by its position, and its name
is unique without regard to ASCII case. One module may be the primary: the output takes its identity
from it, and it is imported before all others.

Only the inputs are stored. Everything else (ids, the primary, the import order) is read off them,
so the registry cannot contradict itself.
-/

namespace ModuleLinker

/-- Position of an input module. -/
structure ModuleId where
  index : Nat
deriving DecidableEq, Inhabited

def ModuleId.text (id : ModuleId) : String := "m" ++ toString id.index

/-- A module to be linked. -/
structure Input where
  module : Module
  isPrimary : Bool
deriving DecidableEq, Inhabited

/-- The modules accepted for a link. -/
structure Registry where
  inputs : List Input := []
deriving DecidableEq

namespace Registry

def size (r : Registry) : Nat := r.inputs.length

/-- The ids of the inputs, in input order. -/
def ids (r : Registry) : List ModuleId := (List.range r.inputs.length).map ModuleId.mk

def input (r : Registry) (id : ModuleId) : Input := r.inputs.getD id.index default

def module (r : Registry) (id : ModuleId) : Module := (r.input id).module

/-- The module of a given name, without regard to ASCII case. -/
def find? (r : Registry) (name : String) : Option ModuleId :=
  (r.inputs.findIdx? fun i ↦ Text.sameName i.module.name name).map ModuleId.mk

/-- The primary module, if there is one. -/
def primary? (r : Registry) : Option ModuleId :=
  (r.inputs.findIdx? Input.isPrimary).map ModuleId.mk

def isPrimary (r : Registry) (id : ModuleId) : Bool := r.primary? = some id

/-- Every module but the primary, in input order. -/
def secondaries (r : Registry) : List ModuleId := r.ids.filter fun id ↦ !r.isPrimary id

/-- The primary first, then the secondaries in input order. -/
def importOrder (r : Registry) : List ModuleId := r.primary?.toList ++ r.secondaries

/-- Digest of the content of all inputs, in import order. -/
def combinedHash (r : Registry) : String :=
  ModuleLinker.combinedHash (r.importOrder.map fun id ↦ (r.module id).contentHash)

/-- Accept a module: it must be well formed, its name must be new, and there is one primary at most.
A module that is refused leaves no trace. -/
def add (r : Registry) (m : Module) (isPrimary : Bool) :
    Except LinkError (ModuleId × Registry) := do
  m.validate
  if (r.find? m.name).isSome then
    throw (.duplicateModule m.name)
  if let (true, some first) := (isPrimary, r.primary?) then
    throw (.multiplePrimaries (r.module first).name m.name)
  return (⟨r.size⟩, ⟨r.inputs ++ [⟨m, isPrimary⟩]⟩)

/-- Accept a list of modules, one of which must be the primary. -/
def ofInputs (inputs : List Input) : Except LinkError Registry := do
  let r ← inputs.foldlM (fun r i ↦ do return (← r.add i.module i.isPrimary).2) {}
  if r.primary?.isNone then
    throw .noPrimary
  return r

end Registry

end ModuleLinker
