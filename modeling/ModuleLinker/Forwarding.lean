import ModuleLinker.Context

/-!
# Following forwarders

A module may export a type that has moved to another module. A name is followed from module to
module until one of them defines it. The walk remembers the modules it came through: coming back to
one is a circle, so a walk has no more steps than there are modules.
-/

namespace ModuleLinker

/-- Where following a name ends. -/
inductive ForwardEnd
  /-- At a type that an input module defines. -/
  | defined (module : ModuleId) (type : TypeId)
  /-- At a module outside the link, named by an assembly reference of an input module. -/
  | external (module : ModuleId) (assembly : AssemblyRefId)
  /-- Nowhere: no module claims the name. -/
  | unresolved
deriving DecidableEq

/-- Where a module sends a name. -/
inductive Hop
  | merged (next : ModuleId)
  | external (assembly : AssemblyRefId)
  /-- The module does not forward the name. -/
  | none
deriving DecidableEq

namespace Context

/-- Where a module sends a name: its first export of that name decides, if it forwards. -/
def hop (ctx : Context) (id : ModuleId) (qualified : String) : Hop :=
  let m := ctx.module id
  match m.findExport? qualified with
  | some e =>
    if m.exportForwards e then
      match m.exportAssembly? e with
      | some a =>
        match ctx.merged? (m.assemblyRef a).name with
        | some next => .merged next
        | none => .external a
      | none => .none
    else .none
  | none => .none

/-- The chain that is reported when a walk comes back to a module. -/
def circle (ctx : Context) (qualified : String) (visited : List ModuleId) (next : ModuleId) :
    List String :=
  (visited ++ [next]).map fun id ↦ "[" ++ (ctx.module id).name ++ "]" ++ qualified

/-- Follow a name from `current`, taking at most `bound` steps; `visited` holds the modules of the
walk so far, in order and with the current one. -/
def followWithin (ctx : Context) (qualified : String) :
    (bound : Nat) → (visited : List ModuleId) → (current : ModuleId) →
      Except LinkError ForwardEnd
  | 0, _, _ => .ok .unresolved
  | bound + 1, visited, current =>
    let elsewhere (otherwise : ForwardEnd) : ForwardEnd :=
      match ctx.findAnywhere? qualified with
      | some (id, type) => .defined id type
      | none => otherwise
    match ctx.hop current qualified with
    | .external a => .ok (elsewhere (.external current a))
    | .none => .ok (elsewhere .unresolved)
    | .merged next =>
      if next ∈ visited then .error (.cyclicForwarder (ctx.circle qualified visited next))
      else
        match ctx.findType? next qualified with
        | some type => .ok (.defined next type)
        | none => ctx.followWithin qualified bound (visited ++ [next]) next

/-- Follow a name from the exports of a module. A walk that stops without a definition falls back to
the first input module that defines the name. -/
def followForwarders (ctx : Context) (origin : ModuleId) (qualified : String) :
    Except LinkError ForwardEnd :=
  ctx.followWithin qualified ctx.registry.size [origin] origin

end Context

end ModuleLinker
