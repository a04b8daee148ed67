import ModuleLinker.Image.Instruction
import ModuleLinker.Image.Resource

/-!
# Module images

A module image is a set of flat tables. An id that stands outside its table denotes the empty entry;
validated modules hold no such id (`ModuleLinker.Image.Validity`).

The additions at the end keep the two directions of a link together: a type is entered in the nested
list of its declaring type, a member in the list of its declaring type.
-/

namespace ModuleLinker

/-- A type definition. -/
structure TypeDef where
  nspace : String := ""
  name : String := ""
  visibility : Visibility := .notPublic
  /-- Carries the runtime's serializability flag. -/
  isSerializable : Bool := false
  /-- Full names of the attribute types applied to the type. -/
  attributes : List String := []
  base : Option TypeSig := none
  interfaces : List TypeSig := []
  declaring : Option TypeId := none
  nested : List TypeId := []
  fields : List FieldId := []
  methods : List MethodId := []
deriving DecidableEq, Inhabited

/-- A method definition; a method without a body is abstract or external. -/
structure MethodDef where
  name : String
  access : Access
  isStatic : Bool
  params : List TypeSig := []
  ret : Option TypeSig := none
  body : Option Body := none
  declaring : TypeId
deriving DecidableEq, Inhabited

/-- A field definition. -/
structure FieldDef where
  name : String
  access : Access
  isStatic : Bool
  fieldType : TypeSig
  declaring : TypeId
deriving DecidableEq, Inhabited

/-- Where a type reference is resolved. -/
inductive Scope
  /-- In the referenced module. -/
  | assembly (id : AssemblyRefId)
  /-- Inside another referenced type. -/
  | nested (outer : TypeRefId)
  /-- In the referencing module itself. -/
  | «local»
deriving DecidableEq, Inhabited

/-- A reference to a type defined elsewhere. -/
structure TypeRef where
  scope : Scope
  nspace : String
  name : String
deriving DecidableEq, Inhabited

/-- What a member reference refers to. -/
inductive MemberKind
  | method (params : List TypeSig) (ret : Option TypeSig)
  | field (type : TypeSig)
deriving DecidableEq, Inhabited

/-- A reference to a member of a type defined elsewhere or of a generic instance. -/
structure MemberRef where
  parent : TypeSig
  name : String
  kind : MemberKind
deriving DecidableEq, Inhabited

/-- A reference to another module. -/
structure AssemblyRef where
  name : String
  version : Version
deriving DecidableEq, Inhabited

/-- Where an exported type lives. -/
inductive ExportTarget
  /-- In a referenced module. -/
  | assembly (id : AssemblyRefId)
  /-- Inside another exported type. -/
  | declaring (outer : ExportId)
  /-- In this module. -/
  | «local»
deriving DecidableEq, Inhabited

/-- An exported type, possibly one that forwards to another module. -/
structure ExportedType where
  nspace : String
  name : String
  implementation : ExportTarget
  isForwarder : Bool := false
deriving DecidableEq, Inhabited

/-- A compiled module. -/
structure Module where
  name : String
  version : Version := {}
  /-- Execution model the module was compiled for; empty when undeclared. -/
  runtime : String := ""
  kind : ModuleKind := .library
  /-- Identity of one build of the module. -/
  mvid : Option String := none
  types : List TypeDef := []
  methods : List MethodDef := []
  fields : List FieldDef := []
  typeRefs : List TypeRef := []
  memberRefs : List MemberRef := []
  assemblyRefs : List AssemblyRef := []
  exportedTypes : List ExportedType := []
  resources : Option ResourceDirectory := none
deriving DecidableEq, Inhabited

/-! ## Reserved names -/

/-- Name of the type that owns module-level members. -/
def moduleTypeName : String := "<Module>"

/-- Name of a static initializer routine. -/
def initializerName : String := ".cctor"

/-- Whether a definition is the reserved type that owns module-level members. -/
def TypeDef.isModuleType (t : TypeDef) : Bool :=
  t.declaring.isNone && t.nspace = "" && t.name = moduleTypeName

/-- Whether a routine is a static initializer. -/
def MethodDef.isInitializer (m : MethodDef) : Bool :=
  m.isStatic && m.params.isEmpty && m.name = initializerName

namespace Module

/-! ## Entries and ids -/

def typeDef (m : Module) (id : TypeId) : TypeDef := m.types.getD id.index default

def method (m : Module) (id : MethodId) : MethodDef := m.methods.getD id.index default

def field (m : Module) (id : FieldId) : FieldDef := m.fields.getD id.index default

def typeRef (m : Module) (id : TypeRefId) : TypeRef := m.typeRefs.getD id.index default

def memberRef (m : Module) (id : MemberRefId) : MemberRef := m.memberRefs.getD id.index default

def assemblyRef (m : Module) (id : AssemblyRefId) : AssemblyRef :=
  m.assemblyRefs.getD id.index default

def exportedType (m : Module) (id : ExportId) : ExportedType :=
  m.exportedTypes.getD id.index default

/-- The ids of the type definitions, in table order. -/
def typeIds (m : Module) : List TypeId := (List.range m.types.length).map TypeId.mk

/-- The ids of the method definitions, in table order. -/
def methodIds (m : Module) : List MethodId := (List.range m.methods.length).map MethodId.mk

/-- The ids of the exported types, in table order. -/
def exportIds (m : Module) : List ExportId := (List.range m.exportedTypes.length).map ExportId.mk

/-- The types that are not nested in another type, in table order. -/
def topLevelTypes (m : Module) : List TypeId :=
  m.typeIds.filter fun id ↦ (m.typeDef id).declaring.isNone

/-- The reserved module-level type, if the module declares one. -/
def moduleType? (m : Module) : Option TypeId :=
  m.topLevelTypes.find? fun id ↦ (m.typeDef id).isModuleType

/-- The routine that runs when the module is loaded, if there is one. -/
def initializer? (m : Module) : Option MethodId := do
  (m.typeDef (← m.moduleType?)).methods.find? fun id ↦ (m.method id).isInitializer

/-- Name of the method a call uses. -/
def handleName (m : Module) : MethodHandle → String
  | .definition id => (m.method id).name
  | .reference id => (m.memberRef id).name

@[simp] theorem mem_typeIds {m : Module} {id : TypeId} :
    id ∈ m.typeIds ↔ id.index < m.types.length := by
  cases id
  simp [typeIds]

@[simp] theorem mem_methodIds {m : Module} {id : MethodId} :
    id ∈ m.methodIds ↔ id.index < m.methods.length := by
  cases id
  simp [methodIds]

@[simp] theorem mem_exportIds {m : Module} {id : ExportId} :
    id ∈ m.exportIds ↔ id.index < m.exportedTypes.length := by
  cases id
  simp [exportIds]

/-! ## Updates -/

/-- Change one type definition. -/
def updateType (m : Module) (id : TypeId) (change : TypeDef → TypeDef) : Module :=
  { m with types := m.types.modify id.index change }

/-- Change one method definition. -/
def updateMethod (m : Module) (id : MethodId) (change : MethodDef → MethodDef) : Module :=
  { m with methods := m.methods.modify id.index change }

/-- Add a type and enter it in the nested list of its declaring type. -/
def addType (m : Module) (t : TypeDef) : TypeId × Module :=
  let id : TypeId := ⟨m.types.length⟩
  let linked := match t.declaring with
    | some outer => m.updateType outer fun o ↦ { o with nested := o.nested ++ [id] }
    | none => m
  (id, { linked with types := linked.types ++ [t] })

/-- Add a method and enter it in the list of its declaring type. -/
def addMethod (m : Module) (d : MethodDef) : MethodId × Module :=
  let id : MethodId := ⟨m.methods.length⟩
  (id, { m with methods := m.methods ++ [d] }.updateType d.declaring
    fun t ↦ { t with methods := t.methods ++ [id] })

/-- Add a field and enter it in the list of its declaring type. -/
def addField (m : Module) (d : FieldDef) : FieldId × Module :=
  let id : FieldId := ⟨m.fields.length⟩
  (id, { m with fields := m.fields ++ [d] }.updateType d.declaring
    fun t ↦ { t with fields := t.fields ++ [id] })

def addTypeRef (m : Module) (r : TypeRef) : TypeRefId × Module :=
  (⟨m.typeRefs.length⟩, { m with typeRefs := m.typeRefs ++ [r] })

def addMemberRef (m : Module) (r : MemberRef) : MemberRefId × Module :=
  (⟨m.memberRefs.length⟩, { m with memberRefs := m.memberRefs ++ [r] })

def addAssemblyRef (m : Module) (r : AssemblyRef) : AssemblyRefId × Module :=
  (⟨m.assemblyRefs.length⟩, { m with assemblyRefs := m.assemblyRefs ++ [r] })

def addExportedType (m : Module) (e : ExportedType) : ExportId × Module :=
  (⟨m.exportedTypes.length⟩, { m with exportedTypes := m.exportedTypes ++ [e] })

end Module

end ModuleLinker
