import ModuleLinker.Import.References

/-!
# Importing members

Fields are told apart by name, methods by name and signature. A member of an input type that the
type of the output already has is mapped onto it; any other is added. References to members of a
type of the output become the members themselves, and must find them; references to members of other
types become references of the output.
-/

namespace ModuleLinker.Import

/-! ## Definitions -/

/-- Map a field onto a field of a type of the output, which is added when there is none of its
name. -/
def importField (ctx : Context) (m : ModuleId) (id : FieldId) (target : TypeId) : Import Unit := do
  if (← ofMap fun map ↦ map.fieldOf? m id).isNone then
    let d := (ctx.module m).field id
    let place ← match ← ofTarget fun t ↦ t.findField? target d.name with
      | some known => pure known
      | none => do
        let fieldType ← importSig ctx m d.fieldType
        updateTarget fun t ↦ t.addField { d with fieldType, declaring := target }
    modifyMap fun map ↦ map.record m (.field id) (.field (.definition place))

/-- Map a method onto a method of a type of the output, which is added without a body when there is
none of its name and signature. -/
def importMethod (ctx : Context) (m : ModuleId) (id : MethodId) (target : TypeId) :
    Import Unit := do
  if (← ofMap fun map ↦ map.methodOf? m id).isNone then
    let d := (ctx.module m).method id
    let params ← importSigs ctx m d.params
    let ret ← importSig? ctx m d.ret
    let place ← match ← ofTarget fun t ↦ t.findMethod? target d.name params ret with
      | some known => pure known
      | none => do
        let added ← updateTarget fun t ↦
          t.addMethod { d with params, ret, body := none, declaring := target }
        modifyMap fun map ↦ map.recordMethodOrigin added m
        pure added
    modifyMap fun map ↦ map.record m (.method id) (.method (.definition place))

/-! ## References -/

/-- The kind of a member reference, carried over to the output. -/
def importMemberKind (ctx : Context) (m : ModuleId) : MemberKind → Import MemberKind
  | .method params ret => do
    let params ← importSigs ctx m params
    return .method params (← importSig? ctx m ret)
  | .field type => do return .field (← importSig ctx m type)

/-- The member of a type of the output that a reference leads to. -/
def importOwnMember (ctx : Context) (m : ModuleId) (id : MemberRefId) (owner : TypeId) :
    Import Counterpart := do
  let r := (ctx.module m).memberRef id
  let found ← match r.kind with
    | .method params ret => do
      let params ← importSigs ctx m params
      let ret ← importSig? ctx m ret
      ofTarget fun t ↦ (t.findMethod? owner r.name params ret).map fun place ↦
        Counterpart.method (.definition place)
    | .field _ =>
      ofTarget fun t ↦ (t.findField? owner r.name).map fun place ↦
        Counterpart.field (.definition place)
  orUnknown ctx m ((ctx.module m).renderMemberRef id) found

/-- The reference of the output that a reference to a member of another type becomes. -/
def importOuterMember (ctx : Context) (m : ModuleId) (id : MemberRefId) (parent : TypeSig) :
    Import Counterpart := do
  let r := (ctx.module m).memberRef id
  let kind ← importMemberKind ctx m r.kind
  let place ← updateTarget fun t ↦ t.internMemberRef { parent, name := r.name, kind }
  return match kind with
    | .method .. => .method (.reference place)
    | .field _ => .field (.reference place)

/-- What a member reference of an input module leads to. -/
def importMemberRef (ctx : Context) (m : ModuleId) (id : MemberRefId) : Import Counterpart := do
  match ← ofMap fun map ↦ map.memberRefOf? m id with
  | some c => return c
  | none =>
    let c ← match ← importSig ctx m ((ctx.module m).memberRef id).parent with
      | .definition owner => importOwnMember ctx m id owner
      | parent => importOuterMember ctx m id parent
    modifyMap fun map ↦ map.record m (.memberRef id) c
    return c

/-- What a method that an input module uses became. -/
def importMethodHandle (ctx : Context) (m : ModuleId) : MethodHandle → Import MethodHandle
  | .definition id => do
    orUnknown ctx m ((ctx.module m).renderMethodDef id) (← ofMap fun map ↦ map.methodOf? m id)
  | .reference id => do
    orUnknown ctx m ((ctx.module m).renderMemberRef id) (← importMemberRef ctx m id).method?

/-- What a field that an input module uses became. -/
def importFieldHandle (ctx : Context) (m : ModuleId) : FieldHandle → Import FieldHandle
  | .definition id => do
    orUnknown ctx m ((ctx.module m).renderFieldDef id) (← ofMap fun map ↦ map.fieldOf? m id)
  | .reference id => do
    orUnknown ctx m ((ctx.module m).renderMemberRef id) (← importMemberRef ctx m id).field?

/-! ## Operands -/

/-- An operand of an input module, carried over to the output. Constants, branch targets and slots
stay as they are. -/
def importOperand (ctx : Context) (m : ModuleId) : Operand → Import Operand
  | .type sig => do return .type (← importSig ctx m sig)
  | .method handle => do return .method (← importMethodHandle ctx m handle)
  | .field handle => do return .field (← importFieldHandle ctx m handle)
  | .signature sig => do
    let params ← importSigs ctx m sig.params
    return .signature { params, ret := ← importSig? ctx m sig.ret }
  | operand => return operand

/-- An instruction of an input module, carried over to the output. -/
def importInstruction (ctx : Context) (m : ModuleId) (i : Instruction) : Import Instruction := do
  return { i with operand := ← importOperand ctx m i.operand }

end ModuleLinker.Import
