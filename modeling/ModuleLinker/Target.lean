import ModuleLinker.Context

/-!
# The module under construction

The output grows by additions that look first at what is there: types are found by qualified name,
references and external modules are added once. Versions of external modules only rise.
-/

namespace ModuleLinker

/-- The module under construction. -/
abbrev Target := Module

/-- What a reference to another module becomes. -/
inductive Resolution
  /-- The module takes part in the link. -/
  | merged (id : ModuleId)
  /-- The module stays outside, and the output refers to it. -/
  | external (id : AssemblyRefId)
deriving DecidableEq

namespace Target

/-- An empty output that takes its version, runtime and kind from the primary module. -/
def start (name : String) (primary : Module) : Target :=
  { name, version := primary.version, runtime := primary.runtime, kind := primary.kind }

/-! ## Types -/

/-- The type known by a qualified name; of several types the latest. -/
def lookup? (t : Target) (qualified : String) : Option TypeId :=
  t.typeIds.reverse.find? fun id ↦ t.qualifiedName id = qualified

/-- The qualified name that a type would have inside a container. -/
def nameIn (t : Target) (container : Option TypeId) (nspace name : String) : String :=
  match container with
  | some outer => t.qualifiedName outer ++ "/" ++ name
  | none => joinNamespace nspace name

/-- Whether a simple name is taken inside a container. -/
def isTaken (t : Target) (container : Option TypeId) (nspace name : String) : Bool :=
  (t.lookup? (t.nameIn container nspace name)).isSome

/-- The names to try for a type of another module: its name behind the module's name in angle
brackets, and that with a number from two on. -/
def candidate (origin name : String) : Nat → String
  | 0 => "<" ++ origin ++ ">" ++ name
  | n + 1 => "<" ++ origin ++ ">" ++ name ++ "_" ++ toString (n + 2)

/-- The first candidate that is free inside a container. A module with `n` types cannot take more
than `n` names, so one of the first `n + 1` candidates is free. -/
def freshName (t : Target) (container : Option TypeId) (nspace name origin : String) : String :=
  let candidates := (List.range (t.types.length + 1)).map (candidate origin name)
  (candidates.find? fun c ↦ !t.isTaken container nspace c).getD (candidate origin name 0)

/-- The reserved module-level type, added when it is first needed. -/
def ensureModuleType (t : Target) : TypeId × Target :=
  match t.lookup? moduleTypeName with
  | some id => (id, t)
  | none => t.addType { name := moduleTypeName, visibility := .notPublic }

/-! ## Members -/

/-- The first method of a type with a name and a signature. -/
def findMethod? (t : Target) (type : TypeId) (name : String) (params : List TypeSig)
    (ret : Option TypeSig) : Option MethodId :=
  (t.typeDef type).methods.find? fun id ↦
    let m := t.method id
    m.name = name && m.params = params && m.ret = ret

/-- The first field of a type with a name. -/
def findField? (t : Target) (type : TypeId) (name : String) : Option FieldId :=
  (t.typeDef type).fields.find? fun id ↦ (t.field id).name = name

/-! ## References -/

/-- The reference equal to a given one, added when there is none. -/
def internTypeRef (t : Target) (r : TypeRef) : TypeRefId × Target :=
  match t.typeRefs.findIdx? (· = r) with
  | some i => (⟨i⟩, t)
  | none => t.addTypeRef r

/-- The member reference equal to a given one, added when there is none. -/
def internMemberRef (t : Target) (r : MemberRef) : MemberRefId × Target :=
  match t.memberRefs.findIdx? (· = r) with
  | some i => (⟨i⟩, t)
  | none => t.addMemberRef r

/-- The reference to an external module, whose version is raised to the given one. -/
def referAssembly (t : Target) (r : AssemblyRef) : AssemblyRefId × Target :=
  match t.findAssemblyRef? r.name with
  | some id =>
    (id, { t with assemblyRefs := t.assemblyRefs.modify id.index fun known ↦
      { known with version := known.version.highest r.version } })
  | none => t.addAssemblyRef r

/-- What an assembly reference of an input module becomes: references to modules of the link go
away, all others become references of the output. -/
def resolveAssembly (t : Target) (ctx : Context) (m : ModuleId) (id : AssemblyRefId) :
    Resolution × Target :=
  let r := (ctx.module m).assemblyRef id
  match ctx.merged? r.name with
  | some merged => (.merged merged, t)
  | none =>
    let (id, t) := t.referAssembly r
    (.external id, t)

/-- The reference to a top-level type of an external module. -/
def referType (t : Target) (assembly : AssemblyRefId) (nspace name : String) :
    TypeRefId × Target :=
  t.internTypeRef { scope := .assembly assembly, nspace, name }

end Target

end ModuleLinker
