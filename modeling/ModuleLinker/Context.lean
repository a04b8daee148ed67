import ModuleLinker.Policy
import ModuleLinker.Registry

/-!
# What a link knows about its inputs

The registry and the policy are fixed before the first symbol is imported. Names are looked up in
one module or across all of them; where several modules declare a name, the first in import order
counts.
-/

namespace ModuleLinker

/-- The inputs of a link and what was asked for. -/
structure Context where
  registry : Registry
  policy : Policy
  /-- Name of the output. -/
  targetName : String

namespace Context

def module (ctx : Context) (id : ModuleId) : Module := ctx.registry.module id

/-- The first type of a module with a qualified name. -/
def findType? (ctx : Context) (id : ModuleId) (qualified : String) : Option TypeId :=
  (ctx.module id).findType? qualified

/-- The first module in import order that has a type with a qualified name, and the type. -/
def findAnywhere? (ctx : Context) (qualified : String) : Option (ModuleId × TypeId) :=
  ctx.registry.importOrder.findSome? fun id ↦ (ctx.findType? id qualified).map fun t ↦ (id, t)

/-- The input module that a reference names, if it takes part in the link. -/
def merged? (ctx : Context) (name : String) : Option ModuleId := ctx.registry.find? name

/-- Whether the types of a module are candidates for hiding; the primary's never are. -/
def internalizes (ctx : Context) (id : ModuleId) : Bool :=
  !ctx.registry.isPrimary id && ctx.policy.selectsModule (ctx.module id).name

/-- Whether a type is hidden in the output; nothing when the decision takes more levels. -/
def internalizesWithin (ctx : Context) (id : ModuleId) (levels : Nat) (type : TypeId) :
    Option Bool :=
  ctx.policy.hidesWithin (ctx.module id) levels type (ctx.internalizes id)

/-- Whether it comes to a decision if a type is hidden. -/
def decides (ctx : Context) (id : ModuleId) (type : TypeId) : Bool :=
  ctx.policy.decides (ctx.module id) type (ctx.internalizes id)

/-- Whether a type is hidden in the output. -/
def internalizesType (ctx : Context) (id : ModuleId) (type : TypeId) : Bool :=
  ctx.policy.hidesType (ctx.module id) type (ctx.internalizes id)

end Context

end ModuleLinker
