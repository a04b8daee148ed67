import ModuleLinker.Decimal.Shortest
import ModuleLinker.Image.Names
import ModuleLinker.Text.Quoted

/-!
# Listings

Signatures and bodies in readable form. Types of other modules are written behind the name of their
module in brackets; an instruction is written as its position, its mnemonic and its operand.
-/

namespace ModuleLinker

namespace Module

/-- A type reference, behind the module it comes from. -/
def renderTypeRef (m : Module) (id : TypeRefId) : String :=
  match m.rootScope id with
  | .assembly a => "[" ++ (m.assemblyRef a).name ++ "]" ++ m.typeRefName id
  | _ => m.typeRefName id

mutual

/-- A signature in readable form. -/
def renderSig (m : Module) : TypeSig → String
  | .definition id => m.qualifiedName id
  | .reference id => m.renderTypeRef id
  | .array element => m.renderSig element ++ "[]"
  | .generic base args =>
    m.renderSig base ++ "<" ++ ", ".intercalate (m.renderSigs args) ++ ">"

def renderSigs (m : Module) : List TypeSig → List String
  | [] => []
  | sig :: rest => m.renderSig sig :: m.renderSigs rest

end

/-- A member behind the name of its type. -/
def memberText (parent name : String) : String := parent ++ "::" ++ name

/-- A method definition behind its type. -/
def renderMethodDef (m : Module) (id : MethodId) : String :=
  memberText (m.qualifiedName (m.method id).declaring) (m.method id).name

/-- A field definition behind its type. -/
def renderFieldDef (m : Module) (id : FieldId) : String :=
  memberText (m.qualifiedName (m.field id).declaring) (m.field id).name

/-- A member reference behind its type. -/
def renderMemberRef (m : Module) (id : MemberRefId) : String :=
  memberText (m.renderSig (m.memberRef id).parent) (m.memberRef id).name

/-- A position in at least four digits. -/
def renderPosition (position : Nat) : String :=
  let digits := toString position
  "".pushn '0' (4 - digits.length) ++ digits

/-- An operand in readable form; empty when there is nothing to show. -/
def renderOperand (m : Module) : Operand → String
  | .none => ""
  | .int32 value => toString value.toInt
  | .int64 value => toString value.toInt
  | .float64 value => value.text
  | .string text => Text.quote text
  | .type sig => m.renderSig sig
  | .method (.definition id) => m.renderMethodDef id
  | .method (.reference id) => m.renderMemberRef id
  | .field (.definition id) => m.renderFieldDef id
  | .field (.reference id) => m.renderMemberRef id
  | .branch target => "-> " ++ renderPosition target
  | .switch targets => ", ".intercalate (targets.map renderPosition)
  | .local slot => "V_" ++ toString slot.toNat
  | .argument slot => "A_" ++ toString slot.toNat
  | .signature _ => "<callsite>"

/-- One line of a listing. -/
def renderInstruction (m : Module) (position : Nat) (i : Instruction) : String :=
  let operand := m.renderOperand i.operand
  renderPosition position ++ ": " ++ i.opcode.mnemonic
    ++ (if operand = "" then "" else " " ++ operand) ++ "\n"

/-- A body, one instruction a line. -/
def renderBody (m : Module) (b : Body) : String :=
  String.join (b.instructions.zipIdx.map fun (i, position) ↦ m.renderInstruction position i)

end Module

end ModuleLinker
