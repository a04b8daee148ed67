import Mathlib.Data.List.GetD
import ModuleLinker.BlobOffset
import ModuleLinker.Locator

/-!
# What the revisions of the code change

A revision looks at a body as it is and says of single instructions what they become. Both passes
over the finished code put an operand in the place of one of the same kind: constants that are
pushed for a routine which takes an offset, and string literals.
-/

namespace ModuleLinker

theorem Body.getElem?_revise (b : Body) (change : List Instruction → Nat → Option Instruction)
    (p : Nat) : (b.revise change).instructions[p]?
      = b.instructions[p]?.map fun i ↦ (change b.instructions p).getD i := by
  rw [Body.revise, List.getElem?_mapIdx]

theorem Module.method_revise (m : Module) (change : Revision) (id : MethodId) :
    (m.revise change).method id
      = { m.method id with body := (m.method id).body.map fun b ↦ b.revise (change id) } := by
  unfold method revise
  rw [List.getD_eq_getElem?_getD, List.getD_eq_getElem?_getD, List.getElem?_mapIdx]
  cases m.methods[id.index]? with
  | none => rfl
  | some d => rfl

theorem Module.revise_of_none (m : Module) {change : Revision}
    (h : ∀ id is p, change id is p = none) : m.revise change = m := by
  have hbody : ∀ id (b : Body), b.revise (change id) = b := fun id b ↦ by
    have his : b.instructions.mapIdx (fun p i ↦ (change id b.instructions p).getD i)
        = b.instructions := List.ext_getElem? fun p ↦ by simp [h]
    rw [Body.revise, his]
  have hmethods : m.methods.mapIdx (fun i d ↦
      { d with body := d.body.map fun b ↦ b.revise (change ⟨i⟩) }) = m.methods :=
    List.ext_getElem? fun i ↦ by simp [hbody]
  rw [revise, hmethods]

theorem Module.exists_body_revise {m : Module} {id : MethodId} {body : Body} {p : Nat}
    {i : Instruction} (hbody : (m.method id).body = some body)
    (hi : body.instructions[p]? = some i) (change : Revision) :
    ∃ body', ((m.revise change).method id).body = some body'
      ∧ body'.instructions[p]? = some ((change id body.instructions p).getD i) := by
  refine ⟨body.revise (change id), ?_, ?_⟩
  · rw [method_revise, hbody]
    rfl
  · rw [Body.getElem?_revise, hi]
    rfl

/-- Only a constant that is pushed for a call which takes an offset is shifted. -/
theorem shiftOffset_eq_some {m : Module} {map : SymbolMap} {offsets : Table ModuleId Nat}
    {id : MethodId} {is : List Instruction} {p : Nat} {j : Instruction} :
    shiftOffset m map offsets id is p = some j ↔ ∃ call value shift,
      is[p + offsetDistance]? = some call ∧ m.consumesOffset call = true
        ∧ is[p]? = some (.loadInt value) ∧ map.shiftAt? offsets id p = some shift
        ∧ j = .loadInt (value + shift) := by
  simp only [shiftOffset, Option.bind_eq_bind, Option.bind_eq_some_iff]
  constructor
  · rintro ⟨call, hcall, h⟩
    split at h
    · next hconsumes =>
      obtain ⟨i, hi, h⟩ := Option.bind_eq_some_iff.mp h
      split at h
      · next value =>
        obtain ⟨shift, hshift, heq⟩ := Option.bind_eq_some_iff.mp h
        exact ⟨call, value, shift, hcall, hconsumes, hi, hshift, (Option.some.inj heq).symm⟩
      · cases h
    · cases h
  · rintro ⟨call, value, shift, hcall, hconsumes, hi, hshift, rfl⟩
    refine ⟨call, hcall, ?_⟩
    rw [if_pos hconsumes, hi]
    change (do return Instruction.loadInt (value + (← map.shiftAt? offsets id p))) = _
    rw [hshift]
    rfl

/-- Only string literals are revised, into string literals. -/
theorem exists_string_of_patchLocator {ctx : Context} {map : SymbolMap} {m : Module}
    {id : MethodId} {is : List Instruction} {p : Nat} {j : Instruction}
    (h : patchLocator ctx map m id is p = some j) : ∃ opcode literal patched,
      is[p]? = some ⟨opcode, .string literal⟩ ∧ j = ⟨opcode, .string patched⟩ := by
  simp only [patchLocator, Option.bind_eq_bind, Option.bind_eq_some_iff] at h
  obtain ⟨⟨opcode, operand⟩, hi, h⟩ := h
  cases operand with
  | string literal =>
    obtain ⟨origin, -, h⟩ := Option.bind_eq_some_iff.mp h
    split at h
    · obtain ⟨patched, -, heq⟩ := Option.bind_eq_some_iff.mp h
      exact ⟨opcode, literal, patched, hi, (Option.some.inj heq).symm⟩
    · cases h
  | none | int32 _ | int64 _ | float64 _ | type _ | method _ | field _ | branch _ | switch _
    | «local» _ | argument _ | signature _ => cases h

end ModuleLinker
