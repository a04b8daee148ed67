import ModuleLinker.Image.Names

/-!
# Building modules

A module is built step by step from an empty one. Each step adds one entry, or finds one that is
there already, and answers with its id; later steps name it by that id. The steps keep the links of
a module in order: a type is entered with its declaring type and a member with its owner.
-/

namespace ModuleLinker

/-- One step of building a module. -/
inductive BuildStep
  /-- A top-level type. -/
  | type (nspace name : String) (visibility : Visibility)
  | nestedType (outer : TypeId) (name : String) (visibility : Visibility)
  /-- The reserved module-level type. -/
  | moduleType
  /-- A static initializer of the module. -/
  | initializer (instructions : List Instruction)
  /-- A public static method; without instructions it has no body. -/
  | method (owner : TypeId) (name : String) (params : List TypeSig) (ret : Option TypeSig)
      (instructions : Option (List Instruction))
  /-- A public static field. -/
  | field (owner : TypeId) (name : String) (type : TypeSig)
  | assemblyRef (name : String) (version : Version)
  /-- A reference to a top-level type of another module. -/
  | typeRef (assembly nspace name : String)
  | methodRef (parent : TypeSig) (name : String) (params : List TypeSig) (ret : Option TypeSig)
  | fieldRef (parent : TypeSig) (name : String) (type : TypeSig)
  /-- An export of a type that lives in another module. -/
  | forward (nspace name assembly : String)
  /-- An export of a type nested in an exported type. -/
  | forwardNested (outer : ExportId) (name : String)
deriving DecidableEq

/-- What a step answers with. -/
inductive Built
  | type (id : TypeId)
  | method (id : MethodId)
  | field (id : FieldId)
  | assemblyRef (id : AssemblyRefId)
  | typeRef (id : TypeRefId)
  | memberRef (id : MemberRefId)
  | «export» (id : ExportId)
deriving DecidableEq

namespace Module

/-- The reserved module-level type, added when it is first needed. -/
def withModuleType (m : Module) : TypeId × Module :=
  match m.moduleType? with
  | some id => (id, m)
  | none => m.addType { name := moduleTypeName, visibility := .notPublic }

/-- The reference to a module, added when there is none of its name. -/
def withAssemblyRef (m : Module) (name : String) (version : Version) : AssemblyRefId × Module :=
  match m.findAssemblyRef? name with
  | some id => (id, m)
  | none => m.addAssemblyRef { name, version }

/-- Take one step. -/
def build (m : Module) : BuildStep → Built × Module
  | .type nspace name visibility =>
    let (id, m) := m.addType { nspace, name, visibility }
    (.type id, m)
  | .nestedType outer name visibility =>
    let (id, m) := m.addType { name, visibility, declaring := some outer }
    (.type id, m)
  | .moduleType =>
    let (id, m) := m.withModuleType
    (.type id, m)
  | .initializer instructions =>
    let (owner, m) := m.withModuleType
    let (id, m) := m.addMethod {
      name := initializerName, access := .private, isStatic := true
      body := some { instructions }, declaring := owner }
    (.method id, m)
  | .method owner name params ret instructions =>
    let (id, m) := m.addMethod {
      name, access := .public, isStatic := true, params, ret
      body := instructions.map fun is ↦ { instructions := is }, declaring := owner }
    (.method id, m)
  | .field owner name fieldType =>
    let (id, m) := m.addField {
      name, access := .public, isStatic := true, fieldType, declaring := owner }
    (.field id, m)
  | .assemblyRef name version =>
    let (id, m) := m.withAssemblyRef name version
    (.assemblyRef id, m)
  | .typeRef assembly nspace name =>
    let (a, m) := m.withAssemblyRef assembly {}
    let (id, m) := m.addTypeRef { scope := .assembly a, nspace, name }
    (.typeRef id, m)
  | .methodRef parent name params ret =>
    let (id, m) := m.addMemberRef { parent, name, kind := .method params ret }
    (.memberRef id, m)
  | .fieldRef parent name type =>
    let (id, m) := m.addMemberRef { parent, name, kind := .field type }
    (.memberRef id, m)
  | .forward nspace name assembly =>
    let (a, m) := m.withAssemblyRef assembly {}
    let (id, m) := m.addExportedType {
      nspace, name, implementation := .assembly a, isForwarder := true }
    (.export id, m)
  | .forwardNested outer name =>
    let (id, m) := m.addExportedType { nspace := "", name, implementation := .declaring outer }
    (.export id, m)

end Module

end ModuleLinker
