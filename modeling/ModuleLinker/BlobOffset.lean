import ModuleLinker.Image.Revision
import ModuleLinker.SymbolMap

/-!
# Offsets into the appended blob

Routines that read literals out of the blob say where by a constant, which is pushed three
instructions before the call. Behind the payloads of other modules that constant is too small by the
offset of the routine's own module, which is added here.
-/

namespace ModuleLinker

/-- Routines that take an offset into the blob. -/
def offsetConsumers : List String :=
  ["WriteUTF8ResourceString", "CreateResourceBasedLiteralControl"]

/-- How far before the call the offset is pushed. -/
def offsetDistance : Nat := 3

/-- Whether an instruction calls a routine that takes an offset. -/
def Module.consumesOffset (m : Module) (i : Instruction) : Bool :=
  match i.operand with
  | .method handle => i.opcode.isCall && offsetConsumers.contains (m.handleName handle)
  | _ => false

namespace SymbolMap

/-- The module whose code stands at a position of a method: that of the block, and outside of blocks
that of the method. -/
def codeOrigin? (s : SymbolMap) (id : MethodId) (position : Nat) : Option ModuleId :=
  s.blockOrigin? id position <|> s.methodOrigin? id

/-- How far the constants of the code at a position are off. Constants have 32 bits, so a greater
offset cannot be added. -/
def shiftAt? (s : SymbolMap) (offsets : Table ModuleId Nat) (id : MethodId) (position : Nat) :
    Option Int32 := do
  let offset ← offsets.find? (← s.codeOrigin? id position)
  if offset < Nat.pow 2 31 then return Int32.ofNat offset else none

end SymbolMap

/-- Add the offset of its module to a constant that is pushed for a routine that takes one. -/
def shiftOffset (m : Module) (map : SymbolMap) (offsets : Table ModuleId Nat) : Revision :=
  fun id is position ↦ do
    let call ← is[position + offsetDistance]?
    if m.consumesOffset call then
      match ← is[position]? with
      | ⟨.ldcI4, .int32 value⟩ =>
        return ⟨.ldcI4, .int32 (value + (← map.shiftAt? offsets id position))⟩
      | _ => none
    else none

/-- Add the offsets of the modules to the constants of a module, and count them. Nothing is looked
at when all offsets are zero. -/
def applyOffsets (m : Module) (map : SymbolMap) (offsets : Table ModuleId Nat) : Nat × Module :=
  if offsets.entries.all fun e ↦ e.2 = 0 then (0, m)
  else (m.countRevised (shiftOffset m map offsets), m.revise (shiftOffset m map offsets))

end ModuleLinker
