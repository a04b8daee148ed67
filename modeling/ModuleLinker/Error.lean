import ModuleLinker.Image.Validity

/-!
# Errors

What ends a link without a result. Conditions that leave a usable result are findings of the report
instead (`ModuleLinker.Report`).
-/

namespace ModuleLinker

/-- Why linking fails. -/
inductive LinkError
  /-- An operand that cannot be moved into another routine. -/
  | unsupportedOperand (kind routine module : String)
  /-- Forwarders that lead back to where they started; the chain ends with the repeated entry. -/
  | cyclicForwarder (chain : List String)
  | noPrimary
  | multiplePrimaries (first second : String)
  | duplicateModule (name : String)
  | invalidPattern (pattern reason : String)
  | incompatibleRuntime (module runtime expected : String)
  /-- A reference that nothing in the link answers. -/
  | unknownSymbol (module symbol : String)
  | malformedModule (module : String) (fault : Fault)
  /-- A branch to a position outside the body of its routine. -/
  | branchOutside (routine module : String) (target : Nat)
  /-- A decision about the types of a module that never comes. A link that waits for it does not
  end; this is what it is known by. -/
  | endlessDecision (module : String)
deriving DecidableEq, Inhabited

namespace LinkError

/-- The text shown to the user. -/
def message : LinkError → String
  | unsupportedOperand kind routine module =>
    s!"Operand kind '{kind}' in '{routine}' of module '{module}' is not supported when merging "
      ++ "initializers"
  | cyclicForwarder chain => "Cyclic type forwarder chain: " ++ " -> ".intercalate chain
  | noPrimary => "No primary module was designated"
  | multiplePrimaries first second =>
    s!"Both '{first}' and '{second}' are designated as the primary module"
  | duplicateModule name => s!"Module '{name}' was supplied more than once"
  | invalidPattern pattern reason =>
    s!"Invalid internalize exclude pattern '{pattern}': {reason}"
  | incompatibleRuntime module runtime expected =>
    s!"Module '{module}' targets runtime '{runtime}' but the primary module targets '{expected}'"
  | unknownSymbol module symbol =>
    s!"Unresolved reference to '{symbol}' from module '{module}'"
  | malformedModule module fault => s!"Module '{module}' is malformed: " ++ fault.text
  | branchOutside routine module target =>
    s!"Branch target {target} is outside the body of '{routine}' in module '{module}'"
  | endlessDecision module =>
    s!"Which types of module '{module}' are hidden is never decided"

end LinkError

/-- Accept a module that has no fault. -/
def Module.validate (m : Module) : Except LinkError Unit :=
  match m.fault? with
  | some fault => .error (.malformedModule m.name fault)
  | none => .ok ()

theorem Module.validate_eq_ok_iff {m : Module} : m.validate = .ok () ↔ m.fault? = none := by
  unfold Module.validate
  cases m.fault? <;> simp

end ModuleLinker
