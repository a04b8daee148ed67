import ModuleLinker.Forwarding
import ModuleLinker.Image.Listing
import ModuleLinker.Import.Declare

/-!
# Importing signatures

A signature of an input module is carried over to the output. Types of the module become the types
that they were declared as. A reference into a module of the link becomes the type it leads to,
through forwarders if need be; a reference to any other module becomes a reference of the output.

A nested reference is resolved inside what its outer reference became, so the references of a scope
chain are imported from the outermost inwards. What a reference became is entered in the map and not
looked for again.
-/

namespace ModuleLinker.Import

/-! ## Type references -/

/-- What an assembly reference of an input module becomes. -/
def resolveAssembly (ctx : Context) (m : ModuleId) (id : AssemblyRefId) : Import Resolution :=
  updateTarget fun t ↦ t.resolveAssembly ctx m id

/-- The reference of the output to a top-level type of an external module. -/
def referType (assembly : AssemblyRefId) (nspace name : String) : Import TypeSig := do
  return .reference (← updateTarget fun t ↦ t.referType assembly nspace name)

/-- The type that a reference into a module of the link leads to: the module's own, or the one at
the end of its forwarders. -/
def importMergedRef (ctx : Context) (m merged : ModuleId) (r : TypeRef) : Import TypeSig := do
  let qualified := joinNamespace r.nspace r.name
  match ctx.findType? merged qualified with
  | some type => return .definition (← ensureDeclared ctx merged type)
  | none =>
    match ← ofExcept (ctx.followForwarders merged qualified) with
    | .defined definer type => return .definition (← ensureDeclared ctx definer type)
    | .external forwarder assembly =>
      match ← resolveAssembly ctx forwarder assembly with
      | .external a => referType a r.nspace r.name
      | .merged _ => unknown ctx m qualified
    | .unresolved => unknown ctx m ("[" ++ (ctx.module merged).name ++ "]" ++ qualified)

/-- What a reference to a top-level type leads to. -/
def importRootRef (ctx : Context) (m : ModuleId) (id : TypeRefId) : Import TypeSig := do
  let r := (ctx.module m).typeRef id
  match r.scope with
  | .assembly assembly =>
    match ← resolveAssembly ctx m assembly with
    | .merged merged => importMergedRef ctx m merged r
    | .external a => referType a r.nspace r.name
  | _ =>
    let qualified := (ctx.module m).typeRefName id
    match ctx.findType? m qualified with
    | some type => return .definition (← ensureDeclared ctx m type)
    | none => unknown ctx m qualified

/-- The type of a simple name nested in a type of the output: the one that the input types mapped
onto the outer type have, or else the one that the output has. -/
def findNested (ctx : Context) (outer : TypeId) (name : String) : Import (Option TypeId) := do
  let sources ← ofMap fun map ↦ map.sourcesOf outer
  let found := sources.findSome? fun (m, type) ↦
    let nested := ((ctx.module m).typeDef type).nested
    (nested.find? fun id ↦ ((ctx.module m).typeDef id).name = name).map fun id ↦ (m, id)
  match found with
  | some (m, id) => return some (← ensureDeclared ctx m id)
  | none => ofTarget fun t ↦ t.lookup? (t.nameIn (some outer) "" name)

/-- What a nested reference leads to, given what its outer reference became. -/
def importNestedRef (ctx : Context) (m : ModuleId) (id : TypeRefId) (outer : TypeSig) :
    Import TypeSig := do
  let r := (ctx.module m).typeRef id
  match outer with
  | .definition type =>
    match ← findNested ctx type r.name with
    | some nested => return .definition nested
    | none => unknown ctx m ((ctx.module m).typeRefName id)
  | .reference outerRef =>
    return .reference (← updateTarget fun t ↦
      t.internTypeRef { scope := .nested outerRef, nspace := r.nspace, name := r.name })
  | _ => unknown ctx m ((ctx.module m).typeRefName id)

/-- What the first reference of a scope chain, innermost first, leads to. -/
def importScopeChain (ctx : Context) (m : ModuleId) : List TypeRefId → Import TypeSig
  | [] => unknown ctx m ""
  | id :: outer => do
    match ← ofMap fun map ↦ map.typeRefOf? m id with
    | some sig => return sig
    | none =>
      let sig ← match outer with
        | [] => importRootRef ctx m id
        | _ :: _ => do
          let outerSig ← importScopeChain ctx m outer
          importNestedRef ctx m id outerSig
      modifyMap fun map ↦ map.record m (.typeRef id) (.type sig)
      return sig

/-- What a type reference of an input module leads to. -/
def importTypeRef (ctx : Context) (m : ModuleId) (id : TypeRefId) : Import TypeSig :=
  importScopeChain ctx m ((ctx.module m).scopeChain id)

/-! ## Signatures -/

mutual

/-- A signature of an input module, carried over to the output. -/
def importSig (ctx : Context) (m : ModuleId) : TypeSig → Import TypeSig
  | .definition id => do return .definition (← ensureDeclared ctx m id)
  | .reference id => importTypeRef ctx m id
  | .array element => do return .array (← importSig ctx m element)
  | .generic base args => do
    let base ← importSig ctx m base
    return .generic base (← importSigs ctx m args)

def importSigs (ctx : Context) (m : ModuleId) : List TypeSig → Import (List TypeSig)
  | [] => return []
  | sig :: rest => do
    let sig ← importSig ctx m sig
    return sig :: (← importSigs ctx m rest)

end

/-- A signature that may be missing. -/
def importSig? (ctx : Context) (m : ModuleId) : Option TypeSig → Import (Option TypeSig)
  | some sig => do return some (← importSig ctx m sig)
  | none => return none

end ModuleLinker.Import
