import ModuleLinker.Error
import ModuleLinker.Pattern.Footprint
import ModuleLinker.Pattern.Machine
import ModuleLinker.Pattern.Parser

/-!
# Internalization policy

Public types of secondary modules may be hidden in the output. Whether they are is decided in two
steps: a module is selected by name, and a type of a selected module is hidden unless a pattern
keeps it public or it belongs to a serialization contract.

Contracts are looked for in nested types too, at any depth, and nothing keeps a module from listing
public types in a circle. Then the search has no end, and there is no decision.
-/

namespace ModuleLinker

/-- How internalization is asked for. -/
structure InternalizeRules where
  /-- Select every secondary module. -/
  enabled : Bool := false
  /-- Modules that are selected in any case. -/
  includes : List String := []
  /-- Modules that are never selected. -/
  excludes : List String := []
  /-- Patterns of names that stay public. -/
  excludePatterns : List String := []
  /-- A file with further patterns; read with the settings, never by the policy. -/
  excludeFile : Option String := none
  /-- Keep types that belong to a contract public. -/
  excludeSerializable : Bool := false
deriving DecidableEq, Inhabited

/-- Rules whose patterns have been read. -/
structure Policy where
  enabled : Bool
  includes : List String
  excludes : List String
  /-- What searches a name for a pattern that keeps it public. -/
  patterns : List Pattern.Machine
  excludeSerializable : Bool
deriving DecidableEq

/-! ## Contracts -/

/-- Attributes that make a type part of a serialization or service contract. -/
def contractAttributes : List String := [
  "System.Runtime.Serialization.DataContractAttribute",
  "System.ServiceModel.ServiceContractAttribute",
  "System.Xml.Serialization.XmlRootAttribute",
  "System.Xml.Serialization.XmlTypeAttribute"]

/-- Whether a definition belongs to a contract by its own flag or attributes. -/
def TypeDef.hasContract (t : TypeDef) : Bool :=
  t.isSerializable || t.attributes.any contractAttributes.contains

namespace Module

/-- Whether a type is kept public for the sake of a contract: a public type that has one, or lists
a type that is kept. Listed types are looked at in order, up to the first that is kept. Nothing when
the descent has not come to an answer within so many levels. -/
def exemptWithin (m : Module) : (levels : Nat) → TypeId → Option Bool
  | 0, _ => none
  | levels + 1, id =>
    if (m.typeDef id).visibility.isPublic then
      if (m.typeDef id).hasContract then some true
      else (m.typeDef id).nested.anyM (m.exemptWithin levels)
    else some false

/-- The levels that every descent ends within that ends at all. One that needs more meets a type
again on its way down, and goes on for ever. -/
def descentBound (m : Module) : Nat := m.types.length + 1

/-- Whether a type is found to be kept public for the sake of a contract. -/
def isContractExempt (m : Module) (id : TypeId) : Bool :=
  (m.exemptWithin m.descentBound id).getD false

end Module

namespace Policy

/-- The pattern that is written, unless it is too large. -/
private def readPattern (written : String) : Except LinkError Pattern :=
  match Pattern.parse written with
  | .ok p =>
    if p.fits then .ok p else .error (.invalidPattern written Pattern.Refusal.tooLarge.message)
  | .error refusal => .error (.invalidPattern written refusal.message)

/-- Read the patterns of the rules. The first one that cannot be read is the error; if each one can
be read, all of them together may be too large. -/
def ofRules (rules : InternalizeRules) : Except LinkError Policy := do
  let patterns ← rules.excludePatterns.mapM readPattern
  if !Pattern.fitTogether patterns then
    .error (.invalidPattern (" | ".intercalate rules.excludePatterns)
      Pattern.Refusal.tooLarge.message)
  return {
    enabled := rules.enabled
    includes := rules.includes
    excludes := rules.excludes
    patterns := patterns.map .ofPattern
    excludeSerializable := rules.excludeSerializable }

/-- Whether the types of a secondary module are candidates; exclusion is stronger than inclusion. -/
def selectsModule (p : Policy) (name : String) : Bool :=
  (p.enabled || p.includes.any (Text.sameName name))
    && !p.excludes.any (Text.sameName name)

/-- Whether a pattern keeps a name public. Patterns may be written for names in brackets, which is
how names stand in argument positions. -/
def keepsPublic (p : Policy) (qualified : String) : Bool :=
  p.patterns.any (·.finds qualified) || p.patterns.any (·.finds ("[" ++ qualified ++ "]"))

/-- Whether a name of a module is hidden; the flag says whether the module was selected. -/
def hidesName (p : Policy) (qualified : String) (selected : Bool) : Bool :=
  selected && !p.keepsPublic qualified

/-- Whether a type of a module is hidden; the flag says whether the module was selected. A type that
nothing else keeps public is looked at for contracts; nothing when that takes more levels. -/
def hidesWithin (p : Policy) (m : Module) (levels : Nat) (id : TypeId) (selected : Bool) :
    Option Bool :=
  if p.hidesName (m.qualifiedName id) selected then
    if p.excludeSerializable then (m.exemptWithin levels id).map (!·) else some true
  else some false

/-- Whether it comes to a decision if a type is hidden. -/
def decides (p : Policy) (m : Module) (id : TypeId) (selected : Bool) : Bool :=
  (p.hidesWithin m m.descentBound id selected).isSome

/-- Whether a type is hidden unless something keeps it public. -/
def hidesType (p : Policy) (m : Module) (id : TypeId) (selected : Bool) : Bool :=
  (p.hidesWithin m m.descentBound id selected).getD true

theorem hidesType_eq (p : Policy) (m : Module) (id : TypeId) (selected : Bool) :
    p.hidesType m id selected = (p.hidesName (m.qualifiedName id) selected
      && !(p.excludeSerializable && m.isContractExempt id)) := by
  unfold hidesType hidesWithin Module.isContractExempt
  split
  · next h =>
    rw [h]
    cases p.excludeSerializable with
    | false => rfl
    | true => cases m.exemptWithin m.descentBound id <;> rfl
  · next h => simp [h]

theorem hidesName_of_not_selected (p : Policy) (qualified : String) :
    p.hidesName qualified false = false := rfl

end Policy

end ModuleLinker
