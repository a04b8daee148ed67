import ModuleLinker.Image.Basic

/-!
# Signatures and handles

A signature says which type a field, a parameter or an operand has: a type of the same module, a
type defined elsewhere, or one built from others. Handles say which method or field an instruction
uses.
-/

namespace ModuleLinker

/-- A type as it appears in signatures and operands. -/
inductive TypeSig
  /-- Type defined in the same module. -/
  | definition (id : TypeId)
  /-- Type defined elsewhere. -/
  | reference (id : TypeRefId)
  /-- Single-dimensional array. -/
  | array (element : TypeSig)
  /-- Generic instantiation. -/
  | generic (base : TypeSig) (args : List TypeSig)
deriving Inhabited

namespace TypeSig

mutual

/-- Signatures are equal when they are built alike from the same types. -/
def decEq : (a b : TypeSig) → Decidable (a = b)
  | .definition i, .definition j =>
    if h : i = j then isTrue (by rw [h]) else isFalse (by simpa using h)
  | .reference i, .reference j =>
    if h : i = j then isTrue (by rw [h]) else isFalse (by simpa using h)
  | .array a, .array b =>
    match decEq a b with
    | isTrue h => isTrue (by rw [h])
    | isFalse h => isFalse (by simpa using h)
  | .generic a as, .generic b bs =>
    match decEq a b, decEqList as bs with
    | isTrue h, isTrue h' => isTrue (by rw [h, h'])
    | isFalse h, _ => isFalse (by simp [h])
    | _, isFalse h => isFalse (by simp [h])
  | .definition _, .reference _ => isFalse (by simp)
  | .definition _, .array _ => isFalse (by simp)
  | .definition _, .generic _ _ => isFalse (by simp)
  | .reference _, .definition _ => isFalse (by simp)
  | .reference _, .array _ => isFalse (by simp)
  | .reference _, .generic _ _ => isFalse (by simp)
  | .array _, .definition _ => isFalse (by simp)
  | .array _, .reference _ => isFalse (by simp)
  | .array _, .generic _ _ => isFalse (by simp)
  | .generic _ _, .definition _ => isFalse (by simp)
  | .generic _ _, .reference _ => isFalse (by simp)
  | .generic _ _, .array _ => isFalse (by simp)

/-- The same for lists of signatures. -/
def decEqList : (as bs : List TypeSig) → Decidable (as = bs)
  | [], [] => isTrue rfl
  | a :: as, b :: bs =>
    match decEq a b, decEqList as bs with
    | isTrue h, isTrue h' => isTrue (by rw [h, h'])
    | isFalse h, _ => isFalse (by simp [h])
    | _, isFalse h => isFalse (by simp [h])
  | [], _ :: _ => isFalse (by simp)
  | _ :: _, [] => isFalse (by simp)

end

instance : DecidableEq TypeSig := decEq

end TypeSig

/-- The method an instruction uses: one of the module, or one of a type defined elsewhere. -/
inductive MethodHandle
  | definition (id : MethodId)
  | reference (id : MemberRefId)
deriving DecidableEq, Inhabited

/-- The field an instruction uses: one of the module, or one of a type defined elsewhere. -/
inductive FieldHandle
  | definition (id : FieldId)
  | reference (id : MemberRefId)
deriving DecidableEq, Inhabited

/-- Signature of a call site without a named method. -/
structure CallSig where
  params : List TypeSig
  ret : Option TypeSig
deriving DecidableEq, Inhabited

end ModuleLinker
