import ModuleLinker.Import.Members

/-!
# Importing all modules

The modules are gone through three times, in import order. First all types are declared, so that
every type has a place before a signature mentions it and earlier modules win the names. Then the
types are populated: bases, fields and methods. Last the bodies are copied, when every member that
they use is there.

Each type is populated and each body copied once, whatever leads to it.
-/

namespace ModuleLinker.Import

/-- Give a type of the output the base and the interfaces of an input type. Only the input type that
was mapped onto it first does so. -/
def importHierarchy (ctx : Context) (m : ModuleId) (id target : TypeId) : Import Unit := do
  let d := (ctx.module m).typeDef id
  if (← ofMap fun map ↦ (map.sourcesOf target).head?) = some (m, id) then
    let base ← importSig? ctx m d.base
    let interfaces ← importSigs ctx m d.interfaces
    modifyTarget fun t ↦ t.updateType target fun shell ↦ { shell with base, interfaces }

/-- Whether a method is left to be folded into the primary's initializer: the initializer of a
secondary module. -/
def isFoldedLater (ctx : Context) (m : ModuleId) (owner : TypeId) (id : MethodId) : Bool :=
  ((ctx.module m).typeDef owner).isModuleType && !ctx.registry.isPrimary m
    && ((ctx.module m).method id).isInitializer

/-- Fill in the base, the interfaces and the members of a type. -/
def populate (ctx : Context) (m : ModuleId) (id : TypeId) : Import Unit := do
  unless (← get).populated.contains (m, id) do
    modify fun s ↦ { s with populated := (m, id) :: s.populated }
    let d := (ctx.module m).typeDef id
    let target ← ensureDeclared ctx m id
    importHierarchy ctx m id target
    d.fields.forM fun field ↦ importField ctx m field target
    d.methods.forM fun method ↦ do
      unless isFoldedLater ctx m id method do importMethod ctx m method target

/-- Declare a type inside a container and populate it. Whether the type itself is hidden is
given. -/
def importType (ctx : Context) (m : ModuleId) (p : Pending) : Import TypeId := do
  let target ← deciding ctx m (fun s s' ↦ s.listedSince s' ctx m) fun s ↦ s.declare ctx m p
  populate ctx m p.type
  return target

/-- A body of an input module, carried over to the output. -/
def importBody (ctx : Context) (m : ModuleId) (b : Body) : Import Body := do
  let instructions ← b.instructions.mapM (importInstruction ctx m)
  return { instructions, locals := ← importSigs ctx m b.locals }

/-- Copy the body of a method into the method of the output that was made for it. A method that was
mapped onto another module's method leaves that one's body alone. -/
def copyBody (ctx : Context) (m : ModuleId) (id : MethodId) : Import Unit := do
  unless (← get).copied.contains (m, id) do
    modify fun s ↦ { s with copied := (m, id) :: s.copied }
    if let some body := ((ctx.module m).method id).body then
      if let some (.definition target) := ← ofMap fun map ↦ map.methodOf? m id then
        if (← ofMap fun map ↦ map.methodOrigin? target) = some m then
          let body ← importBody ctx m body
          modifyTarget fun t ↦ t.updateMethod target fun d ↦ { d with body := some body }

/-- Declare the top-level types of a module and all types inside them. -/
def declareModule (ctx : Context) (m : ModuleId) : Import Unit :=
  (ctx.module m).topLevelTypes.forM fun id ↦
    deciding ctx m (fun s s' ↦ id :: s.listedSince s' ctx m) fun s ↦
      ((), (s.declare ctx m
        { type := id, container := none, hide := ctx.internalizesType m id }).2)

/-- Import the types of all modules. -/
def run (ctx : Context) : Import Unit := do
  let order := ctx.registry.importOrder
  order.forM (declareModule ctx)
  order.forM fun m ↦ (ctx.module m).typeIds.forM (populate ctx m)
  order.forM fun m ↦ (ctx.module m).methodIds.forM (copyBody ctx m)

end ModuleLinker.Import
