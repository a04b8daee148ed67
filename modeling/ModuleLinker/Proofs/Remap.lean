import Mathlib.Data.List.Forall2
import ModuleLinker.Image.Module
import ModuleLinker.SymbolMap

/-!
# What a symbol map makes of signatures and operands

A symbol map says what became of single symbols. Read as an action on everything built from symbols
(signatures, handles, operands, bodies) it is a partial function: it has a value where all symbols
are mapped.

The action only depends on the entries, and entries are never changed or removed. So a value that
the action has once it keeps, and what was computed early in a link agrees with what the finished
map says.
-/

namespace ModuleLinker

theorem mapM_eq_some_iff {α β : Type} {f : α → Option β} {xs : List α} {ys : List β} :
    xs.mapM f = some ys ↔ List.Forall₂ (fun x y ↦ f x = some y) xs ys := by
  induction xs generalizing ys with
  | nil => simp [eq_comm]
  | cons x xs ih =>
    simp only [List.mapM_cons, Option.pure_def, Option.bind_eq_bind, Option.bind_eq_some_iff,
      Option.some.injEq, ih]
    constructor
    · rintro ⟨y, hy, ys', hys', rfl⟩
      exact .cons hy hys'
    · intro h
      cases h with
      | cons hy hys' => exact ⟨_, hy, _, hys', rfl⟩

theorem exists_of_mem_mapM {α β : Type} {f : α → Option β} {xs : List α} {ys : List β}
    (h : xs.mapM f = some ys) {y : β} (hy : y ∈ ys) : ∃ x ∈ xs, f x = some y := by
  induction mapM_eq_some_iff.mp h with
  | nil => cases hy
  | @cons x y' xs ys hxy hrest ih =>
    rcases List.mem_cons.mp hy with rfl | hy
    · exact ⟨x, by simp, hxy⟩
    · obtain ⟨x', hx', hfx⟩ := ih (mapM_eq_some_iff.mpr hrest) hy
      exact ⟨x', by simp [hx'], hfx⟩

/-! ## Members that are used -/

/-- The symbol whose entry says what a used method became. -/
def MethodHandle.symbol : MethodHandle → Symbol
  | .definition id => .method id
  | .reference id => .memberRef id

/-- The symbol whose entry says what a used field became. -/
def FieldHandle.symbol : FieldHandle → Symbol
  | .definition id => .field id
  | .reference id => .memberRef id

@[simp] theorem Counterpart.method?_eq_some {c : Counterpart} {handle : MethodHandle} :
    c.method? = some handle ↔ c = .method handle := by
  cases c <;> simp [method?]

@[simp] theorem Counterpart.field?_eq_some {c : Counterpart} {handle : FieldHandle} :
    c.field? = some handle ↔ c = .field handle := by
  cases c <;> simp [field?]

namespace SymbolMap

/-! ## The action on signatures, handles and operands -/

mutual

/-- What a map makes of a signature of a module. -/
def remapSig? (s : SymbolMap) (m : ModuleId) : TypeSig → Option TypeSig
  | .definition id => (s.typeOf? m id).map .definition
  | .reference id => s.typeRefOf? m id
  | .array element => (s.remapSig? m element).map .array
  | .generic base args => do return .generic (← s.remapSig? m base) (← s.remapSigs? m args)

/-- What a map makes of several signatures of a module. -/
def remapSigs? (s : SymbolMap) (m : ModuleId) : List TypeSig → Option (List TypeSig)
  | [] => some []
  | sig :: rest => do return (← s.remapSig? m sig) :: (← s.remapSigs? m rest)

end

/-- What a map makes of a signature that may be missing. -/
def remapOption? (s : SymbolMap) (m : ModuleId) : Option TypeSig → Option (Option TypeSig)
  | none => some none
  | some sig => (s.remapSig? m sig).map some

def remapMethod? (s : SymbolMap) (m : ModuleId) : MethodHandle → Option MethodHandle
  | .definition id => s.methodOf? m id
  | .reference id =>
    match s.memberRefOf? m id with
    | some (.method handle) => some handle
    | _ => none

def remapField? (s : SymbolMap) (m : ModuleId) : FieldHandle → Option FieldHandle
  | .definition id => s.fieldOf? m id
  | .reference id =>
    match s.memberRefOf? m id with
    | some (.field handle) => some handle
    | _ => none

def remapMemberKind? (s : SymbolMap) (m : ModuleId) : MemberKind → Option MemberKind
  | .method params ret => do return .method (← s.remapSigs? m params) (← s.remapOption? m ret)
  | .field type => (s.remapSig? m type).map .field

/-- What a map makes of an operand; constants, branch targets and slots stay. -/
def remapOperand? (s : SymbolMap) (m : ModuleId) : Operand → Option Operand
  | .type sig => (s.remapSig? m sig).map .type
  | .method handle => (s.remapMethod? m handle).map .method
  | .field handle => (s.remapField? m handle).map .field
  | .signature sig => do
    return .signature { params := ← s.remapSigs? m sig.params, ret := ← s.remapOption? m sig.ret }
  | operand => some operand

def remapInstruction? (s : SymbolMap) (m : ModuleId) (i : Instruction) : Option Instruction :=
  (s.remapOperand? m i.operand).map fun operand ↦ { i with operand }

def remapBody? (s : SymbolMap) (m : ModuleId) (b : Body) : Option Body := do
  return { instructions := ← b.instructions.mapM (s.remapInstruction? m)
           locals := ← s.remapSigs? m b.locals }

/-! ## Maps with more entries

Writing an entry never overwrites one. So a map is extended by whatever is recorded, and what it
says of a symbol is kept for good. -/

/-- Every entry of the one map is an entry of the other. -/
def Extends (s s' : SymbolMap) : Prop :=
  ∀ m symbol c, s.find? m symbol = some c → s'.find? m symbol = some c

theorem Extends.refl (s : SymbolMap) : s.Extends s := fun _ _ _ h ↦ h

theorem Extends.contains {s s' : SymbolMap} (h : s.Extends s') {m : ModuleId} {symbol : Symbol}
    (hin : s.contains m symbol = true) : s'.contains m symbol = true := by
  obtain ⟨c, hc⟩ := Option.isSome_iff_exists.mp hin
  exact Option.isSome_iff_exists.mpr ⟨c, h m symbol c hc⟩

theorem Extends.trans {s s' s'' : SymbolMap} (h : s.Extends s') (h' : s'.Extends s'') :
    s.Extends s'' :=
  fun m symbol c hc ↦ h' m symbol c (h m symbol c hc)

theorem extends_record (s : SymbolMap) (m : ModuleId) (symbol : Symbol) (c : Counterpart) :
    s.Extends (s.record m symbol c) :=
  fun _ _ _ h ↦ Table.find?_insertNew_of_contains h _ _

theorem find?_record_self {s : SymbolMap} {m : ModuleId} {symbol : Symbol}
    (h : s.find? m symbol = none) (c : Counterpart) :
    (s.record m symbol c).find? m symbol = some c := by
  simp [find?_record, h]

theorem find?_record_of_ne {s : SymbolMap} {m m' : ModuleId} {symbol symbol' : Symbol}
    (h : (m', symbol') ≠ (m, symbol)) (c : Counterpart) :
    (s.record m symbol c).find? m' symbol' = s.find? m' symbol' := by
  rw [find?_record, if_neg h]

theorem find?_record_cases {s : SymbolMap} {m m' : ModuleId} {symbol symbol' : Symbol}
    {c c' : Counterpart} (h : (s.record m symbol c).find? m' symbol' = some c') :
    s.find? m' symbol' = some c' ∨ (m', symbol') = (m, symbol) ∧ c' = c := by
  rw [find?_record] at h
  split at h
  · next heq =>
    cases heq
    cases hold : s.find? m symbol with
    | none => exact .inr ⟨rfl, by simpa [hold] using h.symm⟩
    | some c₀ => exact .inl (by simpa [hold] using h)
  · exact .inl h

theorem methodOrigin?_recordMethodOrigin (s : SymbolMap) (d d' : MethodId) (m : ModuleId) :
    (s.recordMethodOrigin d m).methodOrigin? d'
      = if d' = d then some ((s.methodOrigin? d).getD m) else s.methodOrigin? d' :=
  Table.find?_insertNew _ _ _ _

theorem methodOrigin?_recordMethodOrigin_cases {s : SymbolMap} {d d' : MethodId} {m l : ModuleId}
    (h : (s.recordMethodOrigin d m).methodOrigin? d' = some l) :
    s.methodOrigin? d' = some l ∨ d' = d ∧ l = m := by
  rw [methodOrigin?_recordMethodOrigin] at h
  split at h
  · next heq =>
    subst heq
    cases hold : s.methodOrigin? d' with
    | none => exact .inr ⟨rfl, by simpa [hold] using h.symm⟩
    | some l₀ => exact .inl (by simpa [hold] using h)
  · exact .inl h

/-! ## Reading single entries -/

section Entries

variable {s : SymbolMap} {m : ModuleId}

theorem typeOf?_eq_some {id target : TypeId} :
    s.typeOf? m id = some target ↔ s.find? m (.type id) = some (.type (.definition target)) := by
  unfold typeOf?
  split <;> simp_all

theorem typeRefOf?_eq_some {id : TypeRefId} {sig : TypeSig} :
    s.typeRefOf? m id = some sig ↔ s.find? m (.typeRef id) = some (.type sig) := by
  unfold typeRefOf?
  split <;> simp_all

theorem typeRefOf?_record_of_ne {l : ModuleId} {symbol : Symbol} {c : Counterpart} {id : TypeRefId}
    (h : symbol ≠ .typeRef id) : (s.record l symbol c).typeRefOf? m id = s.typeRefOf? m id := by
  unfold typeRefOf?
  rw [find?_record_of_ne fun heq ↦ h (congrArg Prod.snd heq).symm]

theorem methodOf?_eq_some {id : MethodId} {handle : MethodHandle} :
    s.methodOf? m id = some handle ↔ s.find? m (.method id) = some (.method handle) := by
  unfold methodOf?
  split <;> simp_all

theorem fieldOf?_eq_some {id : FieldId} {handle : FieldHandle} :
    s.fieldOf? m id = some handle ↔ s.find? m (.field id) = some (.field handle) := by
  unfold fieldOf?
  split <;> simp_all

theorem remapMethod?_eq_some {handle r : MethodHandle} :
    s.remapMethod? m handle = some r ↔ s.find? m handle.symbol = some (.method r) := by
  cases handle with
  | definition id => exact methodOf?_eq_some
  | reference id =>
    simp only [remapMethod?, memberRefOf?, MethodHandle.symbol]
    split <;> simp_all

theorem remapField?_eq_some {handle r : FieldHandle} :
    s.remapField? m handle = some r ↔ s.find? m handle.symbol = some (.field r) := by
  cases handle with
  | definition id => exact fieldOf?_eq_some
  | reference id =>
    simp only [remapField?, memberRefOf?, FieldHandle.symbol]
    split <;> simp_all

theorem exportOf?_eq_some {qualified : String} {sig : TypeSig} :
    s.exportOf? m qualified = some sig ↔ s.find? m (.export qualified) = some (.type sig) := by
  unfold exportOf?
  split <;> simp_all

end Entries

/-! ## A value stays

What an action makes of a signature or an operand is built from single entries. All of them are
kept when the map is extended, so the value is kept as well. -/

namespace Extends

variable {s s' : SymbolMap} {m : ModuleId}

section Entries

variable (h : s.Extends s')
include h

theorem typeOf? {id target : TypeId} (hid : s.typeOf? m id = some target) :
    s'.typeOf? m id = some target :=
  typeOf?_eq_some.mpr (h _ _ _ (typeOf?_eq_some.mp hid))

theorem typeRefOf? {id : TypeRefId} {sig : TypeSig} (hid : s.typeRefOf? m id = some sig) :
    s'.typeRefOf? m id = some sig :=
  typeRefOf?_eq_some.mpr (h _ _ _ (typeRefOf?_eq_some.mp hid))

theorem methodOf? {id : MethodId} {handle : MethodHandle}
    (hid : s.methodOf? m id = some handle) : s'.methodOf? m id = some handle :=
  methodOf?_eq_some.mpr (h _ _ _ (methodOf?_eq_some.mp hid))

theorem fieldOf? {id : FieldId} {handle : FieldHandle} (hid : s.fieldOf? m id = some handle) :
    s'.fieldOf? m id = some handle :=
  fieldOf?_eq_some.mpr (h _ _ _ (fieldOf?_eq_some.mp hid))

theorem exportOf? {qualified : String} {sig : TypeSig}
    (hsig : s.exportOf? m qualified = some sig) : s'.exportOf? m qualified = some sig :=
  exportOf?_eq_some.mpr (h _ _ _ (exportOf?_eq_some.mp hsig))

end Entries

mutual

theorem remapSig? (h : s.Extends s') : (sig : TypeSig) → {r : TypeSig} →
    s.remapSig? m sig = some r → s'.remapSig? m sig = some r
  | .definition id, r, hr => by
    simp only [SymbolMap.remapSig?, Option.map_eq_some_iff] at hr ⊢
    obtain ⟨target, ht, rfl⟩ := hr
    exact ⟨target, h.typeOf? ht, rfl⟩
  | .reference id, r, hr => by
    simp only [SymbolMap.remapSig?] at hr ⊢
    exact h.typeRefOf? hr
  | .array element, r, hr => by
    simp only [SymbolMap.remapSig?, Option.map_eq_some_iff] at hr ⊢
    obtain ⟨e, he, rfl⟩ := hr
    exact ⟨e, remapSig? h element he, rfl⟩
  | .generic base args, r, hr => by
    simp only [SymbolMap.remapSig?, Option.bind_eq_bind, Option.bind_eq_some_iff] at hr ⊢
    obtain ⟨b, hb, as, has, hr⟩ := hr
    exact ⟨b, remapSig? h base hb, as, remapSigs? h args has, hr⟩

theorem remapSigs? (h : s.Extends s') : (sigs : List TypeSig) → {rs : List TypeSig} →
    s.remapSigs? m sigs = some rs → s'.remapSigs? m sigs = some rs
  | [], rs, hrs => by simpa only [SymbolMap.remapSigs?] using hrs
  | sig :: rest, rs, hrs => by
    simp only [SymbolMap.remapSigs?, Option.bind_eq_bind, Option.bind_eq_some_iff] at hrs ⊢
    obtain ⟨r, hr, rs', hrs', hcons⟩ := hrs
    exact ⟨r, remapSig? h sig hr, rs', remapSigs? h rest hrs', hcons⟩

end

variable (h : s.Extends s')
include h

theorem remapOption? {sig : Option TypeSig} {r : Option TypeSig}
    (hr : s.remapOption? m sig = some r) : s'.remapOption? m sig = some r := by
  cases sig with
  | none => exact hr
  | some sig =>
    simp only [SymbolMap.remapOption?, Option.map_eq_some_iff] at hr ⊢
    obtain ⟨r, hr, rfl⟩ := hr
    exact ⟨r, h.remapSig? sig hr, rfl⟩

theorem remapMethod? {handle r : MethodHandle} (hr : s.remapMethod? m handle = some r) :
    s'.remapMethod? m handle = some r :=
  remapMethod?_eq_some.mpr (h _ _ _ (remapMethod?_eq_some.mp hr))

theorem remapField? {handle r : FieldHandle} (hr : s.remapField? m handle = some r) :
    s'.remapField? m handle = some r :=
  remapField?_eq_some.mpr (h _ _ _ (remapField?_eq_some.mp hr))

theorem remapOperand? {operand r : Operand} (hr : s.remapOperand? m operand = some r) :
    s'.remapOperand? m operand = some r := by
  cases operand with
  | type sig =>
    simp only [SymbolMap.remapOperand?, Option.map_eq_some_iff] at hr ⊢
    obtain ⟨t, ht, rfl⟩ := hr
    exact ⟨t, h.remapSig? _ ht, rfl⟩
  | method handle =>
    simp only [SymbolMap.remapOperand?, Option.map_eq_some_iff] at hr ⊢
    obtain ⟨t, ht, rfl⟩ := hr
    exact ⟨t, h.remapMethod? ht, rfl⟩
  | field handle =>
    simp only [SymbolMap.remapOperand?, Option.map_eq_some_iff] at hr ⊢
    obtain ⟨t, ht, rfl⟩ := hr
    exact ⟨t, h.remapField? ht, rfl⟩
  | signature sig =>
    simp only [SymbolMap.remapOperand?, Option.bind_eq_bind, Option.bind_eq_some_iff] at hr ⊢
    obtain ⟨ps, hps, rt, hrt, hr⟩ := hr
    exact ⟨ps, h.remapSigs? _ hps, rt, h.remapOption? hrt, hr⟩
  | _ => exact hr

theorem remapInstruction? {i r : Instruction} (hr : s.remapInstruction? m i = some r) :
    s'.remapInstruction? m i = some r := by
  simp only [SymbolMap.remapInstruction?, Option.map_eq_some_iff] at hr ⊢
  obtain ⟨operand, ho, rfl⟩ := hr
  exact ⟨operand, h.remapOperand? ho, rfl⟩

theorem remapInstructions? {is rs : List Instruction}
    (hr : is.mapM (s.remapInstruction? m) = some rs) :
    is.mapM (s'.remapInstruction? m) = some rs := by
  rw [mapM_eq_some_iff] at hr ⊢
  exact hr.imp fun _ _ ↦ h.remapInstruction?

theorem remapBody? {b r : Body} (hr : s.remapBody? m b = some r) : s'.remapBody? m b = some r := by
  simp only [SymbolMap.remapBody?, Option.bind_eq_bind, Option.bind_eq_some_iff] at hr ⊢
  obtain ⟨is, his, ls, hls, hr⟩ := hr
  exact ⟨is, h.remapInstructions? his, ls, h.remapSigs? _ hls, hr⟩

end Extends

end SymbolMap

end ModuleLinker
