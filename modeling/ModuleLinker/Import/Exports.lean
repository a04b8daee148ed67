import ModuleLinker.Import.References

/-!
# Exported types

Every export of an input module ends in one of two ways. A forwarder that leads to a type of the
link has done its work: the export is resolved, and the output does not repeat it. Any other export
becomes a type reference of the output, nested like the export was, and is exported again by the
output unless the policy hides it, the name is exported already, or the export that declares it was
left out.
-/

namespace ModuleLinker

/-- The export that a chain of declaring exports comes back to, if it does. -/
def Module.exportLoop? (m : Module) (id : ExportId) : Option ExportId :=
  (m.exportRoot id).outer?

/-- The texts of an export's chain and of the export that it comes back to. -/
def Module.exportCircle (m : Module) (id repeated : ExportId) : List String :=
  (m.exportChain id ++ [repeated]).map fun e ↦ "[" ++ m.name ++ "]" ++ m.exportName e

/-- The type reference for the first export of a chain, innermost first; the outermost reference has
the scope `root`. -/
def Target.referChain (t : Target) (m : Module) (root : Scope) : List ExportId → TypeRefId × Target
  | [] => (default, t)
  | id :: outer =>
    let e := m.exportedType id
    match outer with
    | [] => t.internTypeRef { scope := root, nspace := e.nspace, name := e.name }
    | _ :: _ =>
      let (o, t) := Target.referChain t m root outer
      t.internTypeRef { scope := .nested o, nspace := e.nspace, name := e.name }

/-- The type reference for an export, nested like the export is. Exports that declare one another in
a circle have none. -/
def Target.referExport (t : Target) (m : Module) (root : Scope) (id : ExportId) :
    Except LinkError (TypeRefId × Target) :=
  match m.exportLoop? id with
  | some repeated => .error (.cyclicForwarder (m.exportCircle id repeated))
  | none => .ok (t.referChain m root (m.exportChain id))

/-- The exports of the output by qualified name. -/
abbrev ExportTable := Table String ExportId

/-- Where an export of the output lives, given the scope of its reference; none when it is nested in
an export that the output does not have. -/
def ExportTable.target? (emitted : ExportTable) (m : Module) (e : ExportedType) :
    Scope → Option ExportTarget
  | .assembly a => some (.assembly a)
  | .local => some .local
  | .nested _ => do
    let outer ← e.implementation.outer?
    return .declaring (← emitted.find? (m.exportName outer))

namespace Import

/-- The scope that stands for a module an export comes from. What the inputs export of one another
lives in the output itself. -/
def exportScope (ctx : Context) (m : ModuleId) : Option AssemblyRefId → Import Scope
  | some a => do
    match ← resolveAssembly ctx m a with
    | .external assembly => return .assembly assembly
    | .merged _ => return .local
  | none => return .local

/-- Where the forwarders of an export lead; an export that does not forward leads nowhere. -/
def exportEnd (ctx : Context) (m : ModuleId) (id : ExportId) : Import ForwardEnd :=
  if (ctx.module m).exportForwards id then
    ofExcept (ctx.followForwarders m ((ctx.module m).exportName id))
  else return .unresolved

/-- The type reference that an export becomes. -/
def importExport (ctx : Context) (m : ModuleId) (id : ExportId) (fin : ForwardEnd) :
    Import TypeRefId := do
  let source := ctx.module m
  let root ← match fin with
    | .external forwarder a => exportScope ctx forwarder (some a)
    | _ => exportScope ctx m (source.exportAssembly? id)
  let (r, target) ← ofExcept ((← get).target.referExport source root id)
  modifyTarget fun _ ↦ target
  return r

/-- Export a type of an input module again, where its reference says. -/
def emitExport (emitted : ExportTable) (m : Module) (id : ExportId) (r : TypeRefId) :
    Import ExportTable := do
  let e := m.exportedType id
  match emitted.target? m e (← ofTarget fun t ↦ (t.typeRef r).scope) with
  | none => return emitted
  | some implementation =>
    let added ← updateTarget fun t ↦ t.addExportedType { e with implementation }
    return emitted.insertNew (m.exportName id) added

/-- Resolve an export, or export it again. -/
def resolveExport (ctx : Context) (emitted : ExportTable) (m : ModuleId) (id : ExportId) :
    Import ExportTable := do
  let source := ctx.module m
  let qualified := source.exportName id
  match ← exportEnd ctx m id with
  | .defined definer type =>
    let target ← ensureDeclared ctx definer type
    modifyMap fun map ↦
      (map.record m (.export qualified) (.type (.definition target))).markResolved m qualified
    return emitted
  | fin =>
    let r ← importExport ctx m id fin
    modifyMap fun map ↦ map.record m (.export qualified) (.type (.reference r))
    if ctx.policy.hidesName qualified (ctx.internalizes m) || emitted.contains qualified then
      return emitted
    else emitExport emitted source id r

/-- Resolve the exports of all modules, in import order. -/
def resolveExports (ctx : Context) : Import Unit := do
  let pairs := ctx.registry.importOrder.flatMap fun m ↦
    (ctx.module m).exportIds.map fun id ↦ (m, id)
  discard <| pairs.foldlM (fun emitted (m, id) ↦ resolveExport ctx emitted m id) {}

end Import

end ModuleLinker
