import ModuleLinker.Image.Module

/-!
# Revising instructions in place

Some passes over a finished module change single instructions and leave everything else alone: the
number of instructions, the branches between them, the locals. Such a pass is a `Revision`, which
says for a position of a body what the instruction becomes if it changes.
-/

namespace ModuleLinker

/-- What the instruction at a position of a method's body becomes, if it changes. -/
abbrev Revision := MethodId → List Instruction → Nat → Option Instruction

/-- Revise the instructions of a body. -/
def Body.revise (b : Body) (change : List Instruction → Nat → Option Instruction) : Body :=
  { b with instructions := b.instructions.mapIdx fun i x ↦ (change b.instructions i).getD x }

namespace Module

/-- Revise the instructions of all bodies. -/
def revise (m : Module) (change : Revision) : Module :=
  { m with methods := m.methods.mapIdx fun i d ↦
      { d with body := d.body.map fun b ↦ b.revise (change ⟨i⟩) } }

/-- How many instructions a revision changes. -/
def countRevised (m : Module) (change : Revision) : Nat :=
  (m.methods.mapIdx fun i d ↦
    match d.body with
    | some b =>
      (List.range b.instructions.length).filter fun k ↦ (change ⟨i⟩ b.instructions k).isSome
    | none => []).flatten.length

end Module

theorem Body.length_revise (b : Body) (change : List Instruction → Nat → Option Instruction) :
    (b.revise change).instructions.length = b.instructions.length := by
  simp [Body.revise]

@[simp] theorem Module.length_methods_revise (m : Module) (change : Revision) :
    (m.revise change).methods.length = m.methods.length := by
  simp [Module.revise]

end ModuleLinker
