import ModuleLinker.Document.Basic
import ModuleLinker.Image.Module

/-!
# The stored form of module images

Module images are stored as documents. Tables and flags that hold nothing are optional when a module
is read and are always written; what may be missing altogether (a base type, a body, an identity) is
written only when it is there.
-/

namespace ModuleLinker

open Document (variant)

/-- Positions are stored as 32-bit numbers. -/
private def positionBound : Nat := UInt32.size

instance : Codec TypeId := .bounded positionBound TypeId.index TypeId.mk

instance : Codec MethodId := .bounded positionBound MethodId.index MethodId.mk

instance : Codec FieldId := .bounded positionBound FieldId.index FieldId.mk

instance : Codec TypeRefId := .bounded positionBound TypeRefId.index TypeRefId.mk

instance : Codec MemberRefId := .bounded positionBound MemberRefId.index MemberRefId.mk

instance : Codec AssemblyRefId := .bounded positionBound AssemblyRefId.index AssemblyRefId.mk

instance : Codec ExportId := .bounded positionBound ExportId.index ExportId.mk

instance : Codec Version where
  encode v := .table [
    ("major", Codec.encode v.major), ("minor", Codec.encode v.minor),
    ("build", Codec.encode v.build), ("revision", Codec.encode v.revision)]
  decode? d := do
    let d ← d.record ["major", "minor", "build", "revision"] 4
    return {
      major := ← d.required "major"
      minor := ← d.required "minor"
      build := ← d.required "build"
      revision := ← d.required "revision" }

instance : Codec ModuleKind :=
  .named [(.library, "Library"), (.console, "Console"), (.windows, "Windows")]

instance : Codec Visibility := .named [
  (.notPublic, "NotPublic"),
  (.public, "Public"),
  (.nestedPublic, "NestedPublic"),
  (.nestedPrivate, "NestedPrivate"),
  (.nestedFamily, "NestedFamily"),
  (.nestedAssembly, "NestedAssembly"),
  (.nestedFamilyOrAssembly, "NestedFamilyOrAssembly"),
  (.nestedFamilyAndAssembly, "NestedFamilyAndAssembly")]

instance : Codec Access := .named [
  (.private, "Private"),
  (.familyAndAssembly, "FamilyAndAssembly"),
  (.assembly, "Assembly"),
  (.family, "Family"),
  (.familyOrAssembly, "FamilyOrAssembly"),
  (.public, "Public")]

/-! ## Signatures -/

namespace TypeSig

mutual

def toDocument : TypeSig → Document
  | .definition id => variant "Def" id
  | .reference id => variant "Ref" id
  | .array element => variant "Array" element.toDocument
  | .generic base args =>
    variant "Generic" (Document.table
      [("base", base.toDocument), ("args", .array (toDocuments args))])

def toDocuments : List TypeSig → List Document
  | [] => []
  | sig :: rest => sig.toDocument :: toDocuments rest

end

/-- Read a signature that is nested no deeper than a bound. -/
private def readWithin : (bound : Nat) → Document → Document.Reading TypeSig
  | 0, _ => failure
  | bound + 1, d =>
    match d.variant? with
    | some ("Def", id) => .definition <$> Codec.decode? id
    | some ("Ref", id) => .reference <$> Codec.decode? id
    | some ("Array", element) => .array <$> readWithin bound element
    | some ("Generic", parts) => do
      let parts ← parts.variantRecord ["base", "args"] 2
      let base ← readWithin bound (← parts.get? "base")
      let args ← (← (← parts.get? "args").items?).mapM (readWithin bound)
      return .generic base args
    | _ => failure

instance : Codec TypeSig where
  encode := toDocument
  decode? d := readWithin d.depth d

end TypeSig

instance : Codec MethodHandle where
  encode
    | .definition id => variant "Def" id
    | .reference id => variant "Ref" id
  decode? d :=
    match d.variant? with
    | some ("Def", id) => .definition <$> Codec.decode? id
    | some ("Ref", id) => .reference <$> Codec.decode? id
    | _ => failure

instance : Codec FieldHandle where
  encode
    | .definition id => variant "Def" id
    | .reference id => variant "Ref" id
  decode? d :=
    match d.variant? with
    | some ("Def", id) => .definition <$> Codec.decode? id
    | some ("Ref", id) => .reference <$> Codec.decode? id
    | _ => failure

instance : Codec CallSig where
  encode s := .table (("params", Codec.encode s.params) :: Document.optionalEntry "ret" s.ret)
  decode? d := do
    let d ← d.record ["params", "ret"] 2
    return { params := ← d.required "params", ret := ← d.optional "ret" }

/-! ## Instructions -/

instance : Codec OpCode := .named [
  (.nop, "Nop"), (.ret, "Ret"), (.pop, "Pop"), (.dup, "Dup"), (.throw, "Throw"),
  (.ldcI4, "LdcI4"), (.ldcI8, "LdcI8"), (.ldcR8, "LdcR8"), (.ldstr, "Ldstr"),
  (.ldnull, "Ldnull"), (.ldarg, "Ldarg"), (.ldloc, "Ldloc"), (.stloc, "Stloc"),
  (.ldfld, "Ldfld"), (.stfld, "Stfld"), (.ldsfld, "Ldsfld"), (.stsfld, "Stsfld"),
  (.ldtoken, "Ldtoken"), (.call, "Call"), (.callvirt, "Callvirt"), (.calli, "Calli"),
  (.newobj, "Newobj"), (.newarr, "Newarr"), (.box, "Box"), (.castclass, "Castclass"),
  (.br, "Br"), (.brtrue, "Brtrue"), (.brfalse, "Brfalse"), (.beq, "Beq"), (.switch, "Switch")]

instance : Codec Operand where
  encode
    | .none => .text "None"
    | .int32 value => variant "Int32" value
    | .int64 value => variant "Int64" value
    | .float64 value => variant "Float64" value
    | .string text => variant "String" text
    | .type sig => variant "Type" sig
    | .method handle => variant "Method" handle
    | .field handle => variant "Field" handle
    | .branch target => variant "Branch" target
    | .switch targets => variant "Switch" targets
    | .local slot => variant "Local" slot
    | .argument slot => variant "Argument" slot
    | .signature sig => variant "Signature" sig
  decode? d :=
    match d.name?, d.variant? with
    | some "None", _ => pure .none
    | _, some ("Int32", x) => .int32 <$> Codec.decode? x
    | _, some ("Int64", x) => .int64 <$> Codec.decode? x
    | _, some ("Float64", x) => .float64 <$> Codec.decode? x
    | _, some ("String", x) => .string <$> Codec.decode? x
    | _, some ("Type", x) => .type <$> Codec.decode? x
    | _, some ("Method", x) => .method <$> Codec.decode? x
    | _, some ("Field", x) => .field <$> Codec.decode? x
    | _, some ("Branch", x) => .branch <$> Codec.decode? x
    | _, some ("Switch", x) => .switch <$> Codec.decode? x
    | _, some ("Local", x) => .local <$> Codec.decode? x
    | _, some ("Argument", x) => .argument <$> Codec.decode? x
    | _, some ("Signature", x) => .signature <$> Codec.decode? x
    | _, _ => failure

instance : Codec Instruction where
  encode i := .table [("opcode", Codec.encode i.opcode), ("operand", Codec.encode i.operand)]
  decode? d := do
    let d ← d.record ["opcode", "operand"] 2
    return { opcode := ← d.required "opcode", operand := ← d.required "operand" }

instance : Codec Body where
  encode b := .table
    [("instructions", Codec.encode b.instructions), ("locals", Codec.encode b.locals)]
  decode? d := do
    let d ← d.record ["instructions", "locals"] 1
    return { instructions := ← d.required "instructions", locals := ← d.withDefault "locals" [] }

/-! ## Definitions and references -/

instance : Codec TypeDef where
  encode t := .table <|
    [("namespace", Codec.encode t.nspace), ("name", Codec.encode t.name),
      ("visibility", Codec.encode t.visibility),
      ("is_serializable", Codec.encode t.isSerializable),
      ("attributes", Codec.encode t.attributes)]
    ++ Document.optionalEntry "base" t.base
    ++ [("interfaces", Codec.encode t.interfaces)]
    ++ Document.optionalEntry "declaring" t.declaring
    ++ [("nested", Codec.encode t.nested), ("fields", Codec.encode t.fields),
      ("methods", Codec.encode t.methods)]
  decode? d := do
    let d ← d.record ["namespace", "name", "visibility", "is_serializable", "attributes", "base",
      "interfaces", "declaring", "nested", "fields", "methods"] 8
    return {
      nspace := ← d.required "namespace"
      name := ← d.required "name"
      visibility := ← d.required "visibility"
      isSerializable := ← d.withDefault "is_serializable" false
      attributes := ← d.withDefault "attributes" []
      base := ← d.optional "base"
      interfaces := ← d.withDefault "interfaces" []
      declaring := ← d.optional "declaring"
      nested := ← d.withDefault "nested" []
      fields := ← d.withDefault "fields" []
      methods := ← d.withDefault "methods" [] }

instance : Codec MethodDef where
  encode m := .table <|
    [("name", Codec.encode m.name), ("access", Codec.encode m.access),
      ("is_static", Codec.encode m.isStatic), ("params", Codec.encode m.params)]
    ++ Document.optionalEntry "ret" m.ret
    ++ Document.optionalEntry "body" m.body
    ++ [("declaring", Codec.encode m.declaring)]
  decode? d := do
    let d ← d.record ["name", "access", "is_static", "params", "ret", "body", "declaring"] 7
    return {
      name := ← d.required "name"
      access := ← d.required "access"
      isStatic := ← d.required "is_static"
      params := ← d.withDefault "params" []
      ret := ← d.optional "ret"
      body := ← d.optional "body"
      declaring := ← d.required "declaring" }

instance : Codec FieldDef where
  encode f := .table [
    ("name", Codec.encode f.name), ("access", Codec.encode f.access),
    ("is_static", Codec.encode f.isStatic), ("field_type", Codec.encode f.fieldType),
    ("declaring", Codec.encode f.declaring)]
  decode? d := do
    let d ← d.record ["name", "access", "is_static", "field_type", "declaring"] 5
    return {
      name := ← d.required "name"
      access := ← d.required "access"
      isStatic := ← d.required "is_static"
      fieldType := ← d.required "field_type"
      declaring := ← d.required "declaring" }

instance : Codec Scope where
  encode
    | .assembly id => variant "Assembly" id
    | .nested outer => variant "Nested" outer
    | .local => .text "Local"
  decode? d :=
    match d.name?, d.variant? with
    | some "Local", _ => pure .local
    | _, some ("Assembly", id) => .assembly <$> Codec.decode? id
    | _, some ("Nested", outer) => .nested <$> Codec.decode? outer
    | _, _ => failure

instance : Codec TypeRef where
  encode r := .table [
    ("scope", Codec.encode r.scope), ("namespace", Codec.encode r.nspace),
    ("name", Codec.encode r.name)]
  decode? d := do
    let d ← d.record ["scope", "namespace", "name"] 3
    return {
      scope := ← d.required "scope"
      nspace := ← d.required "namespace"
      name := ← d.required "name" }

instance : Codec MemberKind where
  encode
    | .method params ret => variant "Method" (⟨params, ret⟩ : CallSig)
    | .field type => variant "Field" (Document.table [("ty", Codec.encode type)])
  decode? d :=
    match d.variant? with
    | some ("Method", parts) => do
      let parts ← parts.variantRecord ["params", "ret"] 2
      return .method (← parts.required "params") (← parts.optional "ret")
    | some ("Field", parts) => do
      let parts ← parts.variantRecord ["ty"] 1
      return .field (← parts.required "ty")
    | _ => failure

instance : Codec MemberRef where
  encode r := .table [
    ("parent", Codec.encode r.parent), ("name", Codec.encode r.name),
    ("kind", Codec.encode r.kind)]
  decode? d := do
    let d ← d.record ["parent", "name", "kind"] 3
    return {
      parent := ← d.required "parent"
      name := ← d.required "name"
      kind := ← d.required "kind" }

instance : Codec AssemblyRef where
  encode r := .table [("name", Codec.encode r.name), ("version", Codec.encode r.version)]
  decode? d := do
    let d ← d.record ["name", "version"] 2
    return { name := ← d.required "name", version := ← d.required "version" }

instance : Codec ExportTarget where
  encode
    | .assembly id => variant "Assembly" id
    | .declaring outer => variant "Declaring" outer
    | .local => .text "Local"
  decode? d :=
    match d.name?, d.variant? with
    | some "Local", _ => pure .local
    | _, some ("Assembly", id) => .assembly <$> Codec.decode? id
    | _, some ("Declaring", outer) => .declaring <$> Codec.decode? outer
    | _, _ => failure

instance : Codec ExportedType where
  encode e := .table [
    ("namespace", Codec.encode e.nspace), ("name", Codec.encode e.name),
    ("implementation", Codec.encode e.implementation),
    ("is_forwarder", Codec.encode e.isForwarder)]
  decode? d := do
    let d ← d.record ["namespace", "name", "implementation", "is_forwarder"] 3
    return {
      nspace := ← d.required "namespace"
      name := ← d.required "name"
      implementation := ← d.required "implementation"
      isForwarder := ← d.withDefault "is_forwarder" false }

/-! ## Resources -/

instance : Codec ResourceKey where
  encode
    | .id number => variant "Id" number
    | .name text => variant "Name" text
  decode? d :=
    match d.variant? with
    | some ("Id", id) => do
      let position : TypeId ← Codec.decode? id
      return .id position.index
    | some ("Name", text) => .name <$> Codec.decode? text
    | _ => failure

namespace ResourceNode

mutual

def toDocument : ResourceNode → Document
  | .data bytes => variant "Data" bytes
  | .directory entries =>
    variant "Directory" (Document.table [("entries", .array (toDocuments entries))])

def entryToDocument : ResourceKey × ResourceNode → Document
  | (key, node) => .table [("key", Codec.encode key), ("node", node.toDocument)]

def toDocuments : ResourceDirectory → List Document
  | [] => []
  | e :: rest => entryToDocument e :: toDocuments rest

end

mutual

/-- Read a node that is nested no deeper than a bound. -/
private def readWithin : (bound : Nat) → Document → Document.Reading ResourceNode
  | 0, _ => failure
  | bound + 1, d =>
    match d.variant? with
    | some ("Data", bytes) => .data <$> Codec.decode? bytes
    | some ("Directory", level) => .directory <$> readLevelWithin bound level
    | _ => failure

/-- Read a directory whose nodes are nested no deeper than a bound. -/
private def readLevelWithin (bound : Nat) (d : Document) : Document.Reading ResourceDirectory := do
  let d ← d.record ["entries"] 0
  let items ← d.withDefault "entries" ([] : List Document)
  items.mapM fun item ↦ do
    let item ← item.record ["key", "node"] 2
    return (← item.required "key", ← readWithin bound (← item.get? "node"))

end

instance : Codec ResourceNode where
  encode := toDocument
  decode? d := readWithin d.depth d

instance : Codec ResourceDirectory where
  encode level := .table [("entries", .array (toDocuments level))]
  decode? d := readLevelWithin d.depth d

end ResourceNode

/-! ## Modules -/

instance : Codec Module where
  encode m := .table <|
    [("name", Codec.encode m.name), ("version", Codec.encode m.version),
      ("runtime", Codec.encode m.runtime), ("kind", Codec.encode m.kind)]
    ++ Document.optionalEntry "mvid" m.mvid
    ++ [("types", Codec.encode m.types), ("methods", Codec.encode m.methods),
      ("fields", Codec.encode m.fields), ("type_refs", Codec.encode m.typeRefs),
      ("member_refs", Codec.encode m.memberRefs), ("assembly_refs", Codec.encode m.assemblyRefs),
      ("exported_types", Codec.encode m.exportedTypes)]
    ++ Document.optionalEntry "resources" m.resources
  decode? d := do
    let d ← d.record ["name", "version", "runtime", "kind", "mvid", "types", "methods", "fields",
      "type_refs", "member_refs", "assembly_refs", "exported_types", "resources"] 13
    return {
      name := ← d.required "name"
      version := ← d.withDefault "version" {}
      runtime := ← d.withDefault "runtime" ""
      kind := ← d.withDefault "kind" .library
      mvid := ← d.optional "mvid"
      types := ← d.withDefault "types" []
      methods := ← d.withDefault "methods" []
      fields := ← d.withDefault "fields" []
      typeRefs := ← d.withDefault "type_refs" []
      memberRefs := ← d.withDefault "member_refs" []
      assemblyRefs := ← d.withDefault "assembly_refs" []
      exportedTypes := ← d.withDefault "exported_types" []
      resources := ← d.optional "resources" }

end ModuleLinker
