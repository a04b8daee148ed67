import ModuleLinker.SymbolMap
import ModuleLinker.Target

/-!
# The state of an import

Importing fills the module under construction and the symbol map, and notes what it found. Each type
is populated once and each body is copied once; the state remembers which.

An import that fails keeps the state it reached, so that what was mapped stays mapped.
-/

namespace ModuleLinker

/-- How far an import has come. -/
structure ImportState where
  target : Target
  map : SymbolMap := {}
  conflicts : List Conflict := []
  renamed : List Renaming := []
  /-- Types whose members have been looked at. -/
  populated : List (ModuleId × TypeId) := []
  /-- Methods whose bodies have been looked at. -/
  copied : List (ModuleId × MethodId) := []
deriving DecidableEq

/-- A step of an import: it may fail, and keeps its state when it does. -/
abbrev Import (α : Type) := EStateM LinkError ImportState α

namespace Import

/-- Read something off the module under construction. -/
def ofTarget {α : Type} (f : Target → α) : Import α := do return f (← get).target

/-- Change the module under construction. -/
def modifyTarget (f : Target → Target) : Import Unit :=
  modify fun s ↦ { s with target := f s.target }

/-- Change the module under construction and keep a result. -/
def updateTarget {α : Type} (f : Target → α × Target) : Import α :=
  modifyGet fun s ↦
    let (a, target) := f s.target
    (a, { s with target })

/-- Read something off the symbol map. -/
def ofMap {α : Type} (f : SymbolMap → α) : Import α := do return f (← get).map

/-- Change the symbol map. -/
def modifyMap (f : SymbolMap → SymbolMap) : Import Unit :=
  modify fun s ↦ { s with map := f s.map }

/-- A result that does not depend on the state, or a failure. -/
def ofExcept {α : Type} : Except LinkError α → Import α
  | .ok a => return a
  | .error e => throw e

/-- Fail because of a reference that nothing answers. -/
def unknown {α : Type} (ctx : Context) (m : ModuleId) (symbol : String) : Import α :=
  throw (.unknownSymbol (ctx.module m).name symbol)

/-- What was found; if nothing was, nothing answers the reference. -/
@[inline]
def orUnknown {α : Type} (ctx : Context) (m : ModuleId) (symbol : String) : Option α → Import α
  | some a => return a
  | none => unknown ctx m symbol

end Import

end ModuleLinker
