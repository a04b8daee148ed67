import ModuleLinker.Image.Signature

/-!
# Instructions and routine bodies

A body is a list of instructions; branch targets are positions in that list, and the position just
past the last instruction is a target too.
-/

namespace ModuleLinker

/-- Operation of an instruction. -/
inductive OpCode
  | nop
  | ret
  | pop
  | dup
  | throw
  | ldcI4
  | ldcI8
  | ldcR8
  | ldstr
  | ldnull
  | ldarg
  | ldloc
  | stloc
  | ldfld
  | stfld
  | ldsfld
  | stsfld
  | ldtoken
  | call
  | callvirt
  | calli
  | newobj
  | newarr
  | box
  | castclass
  | br
  | brtrue
  | brfalse
  | beq
  | switch
deriving DecidableEq, Inhabited

namespace OpCode

/-- The name of the operation in listings. -/
def mnemonic : OpCode → String
  | nop => "nop"
  | ret => "ret"
  | pop => "pop"
  | dup => "dup"
  | throw => "throw"
  | ldcI4 => "ldc.i4"
  | ldcI8 => "ldc.i8"
  | ldcR8 => "ldc.r8"
  | ldstr => "ldstr"
  | ldnull => "ldnull"
  | ldarg => "ldarg"
  | ldloc => "ldloc"
  | stloc => "stloc"
  | ldfld => "ldfld"
  | stfld => "stfld"
  | ldsfld => "ldsfld"
  | stsfld => "stsfld"
  | ldtoken => "ldtoken"
  | call => "call"
  | callvirt => "callvirt"
  | calli => "calli"
  | newobj => "newobj"
  | newarr => "newarr"
  | box => "box"
  | castclass => "castclass"
  | br => "br"
  | brtrue => "brtrue"
  | brfalse => "brfalse"
  | beq => "beq"
  | switch => "switch"

/-- Whether the operation invokes a routine through a method operand. -/
def isCall : OpCode → Bool
  | call | callvirt | newobj => true
  | _ => false

end OpCode

/-- A double-precision number, as its IEEE 754 bits: numbers are carried, never computed with. -/
structure Double where
  bits : UInt64
deriving DecidableEq, Inhabited

/-- Operand of an instruction. -/
inductive Operand
  | none
  | int32 (value : Int32)
  | int64 (value : Int64)
  | float64 (value : Double)
  | string (text : String)
  | type (sig : TypeSig)
  | method (handle : MethodHandle)
  | field (handle : FieldHandle)
  | branch (target : Nat)
  | switch (targets : List Nat)
  | «local» (slot : UInt16)
  | argument (slot : UInt16)
  | signature (sig : CallSig)
deriving DecidableEq, Inhabited

/-- Name of the kind of an operand, used in diagnostics. -/
def Operand.kind : Operand → String
  | .none => "none"
  | .int32 _ => "int32"
  | .int64 _ => "int64"
  | .float64 _ => "float64"
  | .string _ => "string"
  | .type _ => "type"
  | .method _ => "method"
  | .field _ => "field"
  | .branch _ => "branch"
  | .switch _ => "switch"
  | .local _ => "local"
  | .argument _ => "argument"
  | .signature _ => "signature"

/-- One instruction. -/
structure Instruction where
  opcode : OpCode
  operand : Operand := .none
deriving DecidableEq, Inhabited

/-- Executable body of a routine. -/
structure Body where
  instructions : List Instruction
  locals : List TypeSig := []
deriving DecidableEq, Inhabited

/-! ## Common instructions -/

namespace Instruction

/-- Return from the routine. -/
def ret : Instruction := ⟨.ret, .none⟩

/-- Do nothing. -/
def nop : Instruction := ⟨.nop, .none⟩

/-- Load an integer constant. -/
def loadInt (value : Int32) : Instruction := ⟨.ldcI4, .int32 value⟩

/-- Load a string literal. -/
def loadString (text : String) : Instruction := ⟨.ldstr, .string text⟩

/-- Call a method. -/
def call (method : MethodHandle) : Instruction := ⟨.call, .method method⟩

/-- Load a static field. -/
def loadStatic (field : FieldHandle) : Instruction := ⟨.ldsfld, .field field⟩

/-- Store a static field. -/
def storeStatic (field : FieldHandle) : Instruction := ⟨.stsfld, .field field⟩

/-- Load the token of a type. -/
def loadToken (sig : TypeSig) : Instruction := ⟨.ldtoken, .type sig⟩

/-- Go to an instruction of the same body. -/
def branch (opcode : OpCode) (target : Nat) : Instruction := ⟨opcode, .branch target⟩

end Instruction

end ModuleLinker
