import ModuleLinker.Import.Run

/-!
# One initializer

The initializers of all modules become one routine of the output: the bodies of the secondaries' in
input order, then the primary's, one after the other, and a single return at the end.

A body that is copied behind others is moved. Its last instruction is left out when it is a return,
a return anywhere else becomes a jump to the end of the body, and every other instruction is kept.
So the instruction at position `i` lands `i` places behind the start, except that the end of a body
lands behind its last kept instruction; branches are relinked accordingly.
-/

namespace ModuleLinker

/-! ## Moving a body -/

/-- The routine that a body belongs to, for diagnostics. -/
structure RoutineName where
  routine : String
  module : String
deriving DecidableEq

/-- The instructions of a body that are kept when it is moved. -/
def keptInstructions (is : List Instruction) : List Instruction :=
  if is.getLast?.any fun i ↦ i.opcode = .ret then is.dropLast else is

/-- Where a position of a body lands when its kept instructions start at `first`; the position just
past the last instruction is one of the body. -/
def landing (name : RoutineName) (is : List Instruction) (first position : Nat) :
    Except LinkError Nat :=
  if position ≤ is.length then .ok (first + min position (keptInstructions is).length)
  else .error (.branchOutside name.routine name.module position)

/-- Give the branch targets of an operand new positions. -/
def Operand.relink (place : Nat → Except LinkError Nat) : Operand → Except LinkError Operand
  | .branch target => do return .branch (← place target)
  | .switch targets => do return .switch (← targets.mapM place)
  | operand => .ok operand

/-- Give the branch targets of an instruction new positions. -/
def Instruction.relink (i : Instruction) (place : Nat → Except LinkError Nat) :
    Except LinkError Instruction := do
  return { i with operand := ← i.operand.relink place }

/-- A kept instruction; the body has `length` instructions, which is where a return jumps to. -/
def carryInstruction (carry : Operand → Import Operand) (length : Nat) (i : Instruction) :
    Import Instruction :=
  if i.opcode = .ret then return .branch .br length
  else do return { i with operand := ← carry i.operand }

/-- The kept instructions of a body, moved to `first`. The operands of all instructions are carried
over before the first branch is relinked. -/
def moveInstructions (carry : Operand → Import Operand) (name : RoutineName)
    (is : List Instruction) (first : Nat) : Import (List Instruction) := do
  let carried ← (keptInstructions is).mapM (carryInstruction carry is.length)
  Import.ofExcept (carried.mapM fun i ↦ i.relink (landing name is first))

theorem length_keptInstructions_le (is : List Instruction) :
    (keptInstructions is).length ≤ is.length := by
  unfold keptInstructions
  split
  · simp
  · exact Nat.le_refl _

/-! ## Folding -/

/-- A combined routine while it grows. -/
structure Folding where
  instructions : List Instruction := []
  /-- The blocks that have been added, in order. -/
  blocks : List Block := []
deriving DecidableEq

/-- Add a block behind the others. -/
def Folding.append (f : Folding) (origin : ModuleId) (block : List Instruction) : Folding :=
  let instructions := f.instructions ++ block
  let added : Block := ⟨f.instructions.length, instructions.length, origin⟩
  { instructions, blocks := f.blocks ++ [added] }

namespace Import

/-- An operand of a secondary's initializer. The combined routine has the frame and the call sites
of the primary's, so operands that name a slot or a call site cannot be carried over. -/
def importFoldedOperand (ctx : Context) (m : ModuleId) (name : RoutineName) (operand : Operand) :
    Import Operand :=
  match operand with
  | .local _ | .argument _ | .signature _ =>
    throw (.unsupportedOperand operand.kind name.routine name.module)
  | _ => importOperand ctx m operand

/-- Add the initializer of a secondary module to the combined routine; one without a body adds
nothing. -/
def foldSecondary (ctx : Context) (f : Folding) (m : ModuleId) (id : MethodId) :
    Import Folding := do
  match ((ctx.module m).method id).body with
  | none => return f
  | some body =>
    let name : RoutineName := ⟨(ctx.module m).renderMethodDef id, (ctx.module m).name⟩
    let block ← moveInstructions (importFoldedOperand ctx m name) name body.instructions
      f.instructions.length
    modifyMap fun map ↦ map.markFolded m id
    return f.append m block

/-- Add the primary's initializer, which is part of the output already, to the combined routine. -/
def foldPrimary (ctx : Context) (f : Folding) (body : Body) : Import Folding := do
  let name : RoutineName := ⟨Module.memberText moduleTypeName initializerName, ctx.targetName⟩
  let block ← moveInstructions pure name body.instructions f.instructions.length
  return match ctx.registry.primary? with
    | some primary => f.append primary block
    | none => { f with instructions := f.instructions ++ block }

/-- The initializers of the secondary modules, in input order. -/
def secondaryInitializers (ctx : Context) : List (ModuleId × MethodId) :=
  ctx.registry.secondaries.filterMap fun m ↦ (ctx.module m).initializer?.map fun id ↦ (m, id)

/-- The method of the output that the primary's initializer was imported as. -/
def importedInitializer? (ctx : Context) (map : SymbolMap) : Option MethodId := do
  let primary ← ctx.registry.primary?
  match map.methodOf? primary (← (ctx.module primary).initializer?) with
  | some (.definition id) => some id
  | _ => none

/-- Make a body that of the output's initializer, which is added when the output has none. -/
def setInitializer (existing : Option MethodId) (owner : TypeId) (body : Body) :
    Import MethodId :=
  updateTarget fun t ↦
    match existing with
    | some id => (id, t.updateMethod id fun d ↦ { d with body := some body })
    | none => t.addMethod {
        name := initializerName, access := .private, isStatic := true, body := some body
        declaring := owner }

/-- Fold the initializers of all modules into one. Without one in a secondary module there is
nothing to do, since the primary's was imported like any other method. -/
def combineInitializers (ctx : Context) : Import Unit := do
  let secondaries := secondaryInitializers ctx
  unless secondaries.isEmpty do
    let existing ← ofMap (importedInitializer? ctx)
    let owner ← updateTarget Target.ensureModuleType
    let own ← ofTarget fun t ↦ existing.bind fun id ↦ (t.method id).body
    let folded ← secondaries.foldlM (fun f (m, id) ↦ foldSecondary ctx f m id) {}
    let combined ← match own with
      | some body => foldPrimary ctx folded body
      | none => pure folded
    let locals := (own.map Body.locals).getD []
    let id ← setInitializer existing owner
      { instructions := combined.instructions ++ [.ret], locals }
    modifyMap fun map ↦ combined.blocks.foldl (fun map b ↦ map.recordBlock id b) map

end Import

end ModuleLinker
