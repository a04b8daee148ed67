import ModuleLinker.Chain
import ModuleLinker.Image.Module
import ModuleLinker.Text.Ascii

/-!
# Qualified names

A top-level type is known as `Namespace.Name`, a nested one as `Outer/Inner`. The same rule names
type definitions, type references and exported types: the links to the outer entries are followed,
the outermost entry gives its namespace and name, every other entry its name.

Declaring types and reference scopes are followed to their end, which validated modules have.
Exported types may declare one another in a circle; their chains are cut before the first entry that
repeats, and everything that is said about an export (its name, whether it forwards, the module it
comes from) is said about the chain.
-/

namespace ModuleLinker

/-- Join a namespace and a simple name. -/
def joinNamespace (nspace name : String) : String :=
  if nspace = "" then name else nspace ++ "." ++ name

/-- The name of an entry whose chain, innermost entry first, carries these namespaces and names. -/
def chainName : List (String × String) → String
  | [] => ""
  | [(nspace, name)] => joinNamespace nspace name
  | (_, name) :: outer => chainName outer ++ "/" ++ name

theorem chainName_cons_cons (p q : String × String) (r : List (String × String)) :
    chainName (p :: q :: r) = chainName (q :: r) ++ "/" ++ p.2 := by
  rw [chainName]
  simp

/-- The reference a scope is nested in. -/
def Scope.outer? : Scope → Option TypeRefId
  | .nested outer => some outer
  | _ => none

/-- The export an export is nested in. -/
def ExportTarget.outer? : ExportTarget → Option ExportId
  | .declaring outer => some outer
  | _ => none

namespace Module

/-! ## Type definitions -/

/-- A type and the types that declare it, innermost first. -/
def declaringChain (m : Module) (id : TypeId) : List TypeId :=
  Chain.follow (fun t ↦ (m.typeDef t).declaring) m.types.length id

/-- Qualified name of a type definition. -/
def qualifiedName (m : Module) (id : TypeId) : String :=
  chainName ((m.declaringChain id).map fun t ↦ ((m.typeDef t).nspace, (m.typeDef t).name))

/-- The first type with a qualified name. -/
def findType? (m : Module) (qualified : String) : Option TypeId :=
  m.typeIds.find? fun id ↦ m.qualifiedName id = qualified

/-! ## Type references -/

/-- A reference and the references it is nested in, innermost first. -/
def scopeChain (m : Module) (id : TypeRefId) : List TypeRefId :=
  Chain.follow (fun r ↦ (m.typeRef r).scope.outer?) m.typeRefs.length id

/-- Qualified name of a type reference. -/
def typeRefName (m : Module) (id : TypeRefId) : String :=
  chainName ((m.scopeChain id).map fun r ↦ ((m.typeRef r).nspace, (m.typeRef r).name))

/-- Scope of the outermost reference a reference is nested in. -/
def rootScope (m : Module) (id : TypeRefId) : Scope :=
  (m.typeRef ((m.scopeChain id).getLastD id)).scope

/-! ## Assembly references -/

/-- The first reference to a module of the given name, without regard to ASCII case. -/
def findAssemblyRef? (m : Module) (name : String) : Option AssemblyRefId :=
  (m.assemblyRefs.findIdx? fun r ↦ Text.sameName r.name name).map AssemblyRefId.mk

/-- Whether the module refers to a module of the given name. -/
def references (m : Module) (name : String) : Bool := (m.findAssemblyRef? name).isSome

/-! ## Exported types -/

/-- An export and the exports that declare it, innermost first, cut before the first repetition. -/
def exportChain (m : Module) (id : ExportId) : List ExportId :=
  Chain.distinct (fun e ↦ (m.exportedType e).implementation.outer?)
    m.exportedTypes.length [] id

/-- Qualified name of an exported type. -/
def exportName (m : Module) (id : ExportId) : String :=
  chainName ((m.exportChain id).map fun e ↦ ((m.exportedType e).nspace, (m.exportedType e).name))

/-- The first export with a qualified name. -/
def findExport? (m : Module) (qualified : String) : Option ExportId :=
  m.exportIds.find? fun id ↦ m.exportName id = qualified

/-- Whether an export forwards, itself or through an export that declares it. -/
def exportForwards (m : Module) (id : ExportId) : Bool :=
  (m.exportChain id).any fun e ↦ (m.exportedType e).isForwarder

/-- Where the outermost export of a chain lives. -/
def exportRoot (m : Module) (id : ExportId) : ExportTarget :=
  (m.exportedType ((m.exportChain id).getLastD id)).implementation

/-- The referenced module an export comes from. -/
def exportAssembly? (m : Module) (id : ExportId) : Option AssemblyRefId :=
  match m.exportRoot id with
  | .assembly a => some a
  | _ => none

end Module

end ModuleLinker
