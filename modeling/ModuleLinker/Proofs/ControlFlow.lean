import Mathlib.Tactic.Tauto
import ModuleLinker.Import.Initializer
import ModuleLinker.Proofs.Remap

/-!
# Control flow of bodies

A body is read as a graph over positions. Returns lead nowhere, and so does the position just past
the last instruction; a jump leads to its target, and any other instruction with targets leads to
one of them or to the next position. What a path leaves behind is the trace of the instructions that
were executed, without returns and jumps and with branch targets blotted out.

A body that has been moved into another one runs there as it did alone: the traces by which the body
returns are, up to the remapping of operands, the traces by which the paths from the first position
of its block arrive at the end of the block. Positions correspond by where they land. Several
positions can land on the end of the block, the dropped return and the end of the body, and they
are exactly those at which the body has returned.
-/

namespace ModuleLinker

/-! ## Operands and their targets

Branches and switches name positions; no other operand does. Changing the positions changes
nothing else of an operand, in particular none of the ids in it. -/

namespace Operand

/-- The positions that an operand names. -/
def targets : Operand → List Nat
  | .branch target => [target]
  | .switch targets => targets
  | _ => []

/-- Change the positions that an operand names. -/
def retarget (f : Nat → Nat) : Operand → Operand
  | .branch target => .branch (f target)
  | .switch targets => .switch (targets.map f)
  | operand => operand

@[simp] theorem targets_retarget (f : Nat → Nat) (o : Operand) :
    (o.retarget f).targets = o.targets.map f := by
  cases o <;> rfl

theorem retarget_retarget (f g : Nat → Nat) (o : Operand) :
    (o.retarget f).retarget g = o.retarget (g ∘ f) := by
  cases o <;> simp [retarget]

@[simp] theorem ids_retarget (f : Nat → Nat) (o : Operand) : (o.retarget f).ids = o.ids := by
  cases o <;> rfl

end Operand

/-! ## Where an instruction leads -/

namespace Instruction

/-- Whether control may go on to the next position, if the instruction does not return. -/
def fallsThrough (i : Instruction) : Bool :=
  match i.operand with
  | .branch _ => i.opcode ≠ .br
  | .switch _ => true
  | _ => i.opcode ≠ .throw

/-- The positions that control may go to from an instruction at a position. -/
def successors (i : Instruction) (position : Nat) : List Nat :=
  if i.opcode = .ret then []
  else i.operand.targets ++ if i.fallsThrough then [position + 1] else []

/-- What a trace shows of an instruction: nothing of a return or a jump, and no targets. -/
def visible (i : Instruction) : List Instruction :=
  if i.opcode = .ret ∨ i.opcode = .br then []
  else [{ i with operand := i.operand.retarget fun _ ↦ 0 }]

/-- An instruction with its operand remapped. -/
def mapOperand? (remap : Operand → Option Operand) (i : Instruction) : Option Instruction :=
  (remap i.operand).map fun operand ↦ { i with operand }

@[simp] theorem fallsThrough_retarget (f : Nat → Nat) (c : OpCode) (o : Operand) :
    fallsThrough ⟨c, o.retarget f⟩ = fallsThrough ⟨c, o⟩ := by
  cases o <;> rfl

theorem mem_successors {i : Instruction} {p q : Nat} : q ∈ i.successors p ↔
    i.opcode ≠ .ret ∧ (q ∈ i.operand.targets ∨ i.fallsThrough = true ∧ q = p + 1) := by
  unfold successors
  split
  · next h => simp [h]
  · next h =>
    rw [List.mem_append]
    split <;> simp_all

end Instruction

/-! ## Paths and traces -/

/-- A path through a body, and the trace that it leaves. -/
inductive Walk (is : List Instruction) : Nat → List Instruction → Nat → Prop
  | done (p : Nat) : Walk is p [] p
  | step {p q r : Nat} {i : Instruction} {tr : List Instruction} (hi : is[p]? = some i)
      (hq : q ∈ i.successors p) (rest : Walk is q tr r) : Walk is p (i.visible ++ tr) r

/-- A position at which a body has returned. -/
def HasReturned (is : List Instruction) (p : Nat) : Prop :=
  p = is.length ∨ ∃ i, is[p]? = some i ∧ i.opcode = .ret

/-- A trace of a path from the first instruction that returns. -/
def Returns (is : List Instruction) (tr : List Instruction) : Prop :=
  ∃ p, Walk is 0 tr p ∧ HasReturned is p

/-- A path that arrives at a position for the first time, and the trace that it leaves. -/
inductive Arrives (is : List Instruction) (goal : Nat) : Nat → List Instruction → Prop
  | here : Arrives is goal goal []
  | step {p q : Nat} {i : Instruction} {tr : List Instruction} (hne : p ≠ goal)
      (hi : is[p]? = some i) (hq : q ∈ i.successors p) (rest : Arrives is goal q tr) :
      Arrives is goal p (i.visible ++ tr)

/-- No path leaves a stretch of a body but at its end. -/
def Encloses (is : List Instruction) (first last : Nat) : Prop :=
  ∀ p i q, first ≤ p → p < last → is[p]? = some i → q ∈ i.successors p → first ≤ q ∧ q ≤ last

/-- The traces by which a body returns, each instruction remapped; `none` stands where one cannot
be. -/
def returnTraces (remap : Operand → Option Operand) (is : List Instruction) :
    Set (List (Option Instruction)) :=
  { t | ∃ tr, Returns is tr ∧ tr.map (Instruction.mapOperand? remap) = t }

/-- The traces by which paths from one position of a body arrive at another. -/
def blockTraces (is : List Instruction) (first last : Nat) : Set (List (Option Instruction)) :=
  { t | ∃ tr, Arrives is last first tr ∧ tr.map some = t }

/-! ## Remapping that leaves targets alone -/

/-- A remapping of operands that does not change where instructions lead. -/
structure KeepsTargets (remap : Operand → Option Operand) : Prop where
  targets : ∀ {o o'}, remap o = some o' → o'.targets = o.targets
  fallsThrough : ∀ {o o'}, remap o = some o' → ∀ c,
    Instruction.fallsThrough ⟨c, o'⟩ = Instruction.fallsThrough ⟨c, o⟩
  retarget : ∀ {o o'}, remap o = some o' → ∀ f, remap (o.retarget f) = some (o'.retarget f)

theorem keepsTargets_some : KeepsTargets some := by
  constructor
  · intro o o' h
    cases h
    rfl
  · intro o o' h c
    cases h
    rfl
  · intro o o' h f
    cases h
    rfl

private theorem remapOperand?_cases {s : SymbolMap} {m : ModuleId} {o o' : Operand}
    (h : s.remapOperand? m o = some o') :
    o' = o ∨ (∀ f, o.retarget f = o) ∧ (∀ f, o'.retarget f = o') ∧ o.targets = [] ∧ o'.targets = []
      ∧ ∀ c, Instruction.fallsThrough ⟨c, o'⟩ = Instruction.fallsThrough ⟨c, o⟩ := by
  cases o with
  | type _ | method _ | field _ =>
    simp only [SymbolMap.remapOperand?, Option.map_eq_some_iff] at h
    obtain ⟨r, -, rfl⟩ := h
    exact .inr ⟨fun _ ↦ rfl, fun _ ↦ rfl, rfl, rfl, fun _ ↦ rfl⟩
  | signature _ =>
    simp only [SymbolMap.remapOperand?, Option.bind_eq_bind, Option.bind_eq_some_iff] at h
    obtain ⟨ps, -, rt, -, hr⟩ := h
    cases hr
    exact .inr ⟨fun _ ↦ rfl, fun _ ↦ rfl, rfl, rfl, fun _ ↦ rfl⟩
  | none | int32 _ | int64 _ | float64 _ | string _ | branch _ | switch _ | «local» _
    | argument _ =>
    cases h
    exact .inl rfl

theorem keepsTargets_remapOperand? (s : SymbolMap) (m : ModuleId) :
    KeepsTargets (s.remapOperand? m) := by
  constructor
  · intro o o' h
    rcases remapOperand?_cases h with rfl | ⟨-, -, ho, ho', -⟩
    · rfl
    · rw [ho, ho']
  · intro o o' h c
    rcases remapOperand?_cases h with rfl | ⟨-, -, -, -, hc⟩
    · rfl
    · exact hc c
  · intro o o' h f
    rcases remapOperand?_cases h with rfl | ⟨ho, ho', -, -, -⟩
    · cases o' with
      | branch _ | switch _ => rfl
      | none | int32 _ | int64 _ | float64 _ | string _ | type _ | method _ | field _ | «local» _
        | argument _ | signature _ => exact h
    · rw [ho, ho', h]

/-! ## Bodies that have been moved

A return at the end of a body is dropped, and any other return becomes a jump to the end of the
block. So where a position lands on the end of the block, the body has returned, and all other
positions keep their distance from the beginning. The two directions between paths are then
inductions on the path, one step for one step. -/

/-- Where a position of a body lands. -/
def place (is : List Instruction) (first position : Nat) : Nat :=
  first + min position (keptInstructions is).length

/-- The instructions of a body stand in another one, from one position up to another. A return is a
jump to the end of the block, and everything else has its operand remapped and its targets moved
along. -/
structure Moved (remap : Operand → Option Operand) (is js : List Instruction) (first last : Nat) :
    Prop where
  last_eq : last = first + (keptInstructions is).length
  ret : ∀ {p i}, (keptInstructions is)[p]? = some i → i.opcode = .ret →
    js[first + p]? = some (.branch .br last)
  carried : ∀ {p i}, (keptInstructions is)[p]? = some i → i.opcode ≠ .ret →
    ∃ o, remap i.operand = some o ∧ (∀ t ∈ i.operand.targets, t ≤ is.length)
      ∧ js[first + p]? = some { i with operand := o.retarget (place is first) }

/-- A body is its kept instructions, but for a return at the end. -/
theorem keptInstructions_cases (is : List Instruction) :
    keptInstructions is = is ∨ ∃ i, i.opcode = .ret ∧ is = keptInstructions is ++ [i] := by
  unfold keptInstructions
  split
  · next h =>
    rw [Option.any_eq_true] at h
    obtain ⟨i, hi, hret⟩ := h
    exact .inr ⟨i, of_decide_eq_true hret, (List.dropLast_append_getLast? i hi).symm⟩
  · exact .inl rfl

/-- The positions that land on the end of a block are those at which the body has returned. -/
theorem hasReturned_of_kept_le {is : List Instruction} {p : Nat} (hp : p ≤ is.length)
    (h : (keptInstructions is).length ≤ p) : HasReturned is p := by
  rcases keptInstructions_cases is with hkept | ⟨i, hret, hkept⟩
  · rw [hkept] at h
    exact .inl (by omega)
  · have hlen := congrArg List.length hkept
    rw [List.length_append, List.length_singleton] at hlen
    by_cases hend : p = is.length
    · exact .inl hend
    · obtain rfl : p = (keptInstructions is).length := by omega
      have hget := congrArg (·[(keptInstructions is).length]?) hkept
      exact .inr ⟨i, by simpa using hget, hret⟩

theorem getElem?_keptInstructions {is : List Instruction} {p : Nat}
    (hp : p < (keptInstructions is).length) : (keptInstructions is)[p]? = is[p]? := by
  rcases keptInstructions_cases is with hkept | ⟨l, -, hkept⟩
  · rw [hkept]
  · have hget := congrArg (·[p]?) hkept
    rw [hget, List.getElem?_append_left hp]

theorem lt_of_opcode_ne_ret {is : List Instruction} {p : Nat} {i : Instruction}
    (hi : is[p]? = some i) (hne : i.opcode ≠ .ret) : p < (keptInstructions is).length := by
  rcases keptInstructions_cases is with hkept | ⟨l, hret, hkept⟩
  · rw [hkept]
    exact (List.getElem?_eq_some_iff.mp hi).1
  · have hget := congrArg (·[p]?) hkept
    rw [hi, List.getElem?_append] at hget
    split at hget
    · next hlt => exact hlt
    · -- the instruction that is left out is a return
      rw [List.getElem?_singleton] at hget
      split at hget
      · cases hget
        exact absurd hret hne
      · cases hget

namespace Moved

variable {remap : Operand → Option Operand} {is js : List Instruction} {first last : Nat}

/-- A carried instruction leads where the source's successors land. -/
theorem successors_carried (hr : KeepsTargets remap) {i : Instruction} {o : Operand} {p : Nat}
    (ho : remap i.operand = some o) (hp : p < (keptInstructions is).length) :
    Instruction.successors { i with operand := o.retarget (place is first) } (place is first p)
      = (i.successors p).map (place is first) := by
  have hnext : place is first p + 1 = place is first (p + 1) := by
    unfold place
    omega
  have hfalls : Instruction.fallsThrough { i with operand := o } = i.fallsThrough :=
    hr.fallsThrough ho i.opcode
  unfold Instruction.successors
  rw [Instruction.fallsThrough_retarget, hfalls, Operand.targets_retarget, hr.targets ho, hnext]
  split
  · rfl
  · rw [List.map_append]
    split <;> rfl

/-- A carried instruction looks like the source's, remapped. -/
theorem visible_carried (hr : KeepsTargets remap) {i : Instruction} {o : Operand}
    (ho : remap i.operand = some o) (f : Nat → Nat) :
    i.visible.map (Instruction.mapOperand? remap)
      = (Instruction.visible { i with operand := o.retarget f }).map some := by
  unfold Instruction.visible
  split
  · rfl
  · rw [List.map_singleton, List.map_singleton, Instruction.mapOperand?, hr.retarget ho,
      Operand.retarget_retarget]
    rfl

theorem succ_le {i : Instruction} {p q : Nat} (hp : p < is.length)
    (hin : ∀ t ∈ i.operand.targets, t ≤ is.length) (hq : q ∈ i.successors p) : q ≤ is.length := by
  rcases (Instruction.mem_successors.mp hq).2 with ht | ⟨-, rfl⟩
  · exact hin q ht
  · exact hp

variable (h : Moved remap is js first last) (hr : KeepsTargets remap)
include h

theorem place_eq_last {p : Nat} : place is first p = last ↔ (keptInstructions is).length ≤ p := by
  rw [h.last_eq, place]
  omega

include hr

/-- What a path of the source does from a position on, the moved body does from where it lands. -/
theorem arrives_of_walk {p r : Nat} {tr : List Instruction} (hw : Walk is p tr r)
    (hret : HasReturned is r) : ∃ tr', Arrives js last (place is first p) tr'
      ∧ tr.map (Instruction.mapOperand? remap) = tr'.map some := by
  induction hw with
  | done p =>
    refine ⟨[], ?_, rfl⟩
    by_cases hend : place is first p = last
    · rw [hend]
      exact .here
    · -- the body has returned before its end, which is a jump to the end of the block
      have hp : p < (keptInstructions is).length := by
        rw [h.place_eq_last] at hend
        omega
      have hlen := length_keptInstructions_le is
      rcases hret with rfl | ⟨i, hi, hret⟩
      · omega
      · rw [← getElem?_keptInstructions hp] at hi
        have hland : place is first p = first + p := by
          unfold place
          omega
        have hj := h.ret hi hret
        rw [← hland] at hj
        exact .step hend hj (by simp [Instruction.successors, Instruction.branch, Operand.targets])
          .here
  | @step p q r i tr hi hq _ ih =>
    -- an instruction that goes on is no return, so it was kept and carried
    obtain ⟨tr', harrives, htr⟩ := ih hret
    have hne := (Instruction.mem_successors.mp hq).1
    have hp := lt_of_opcode_ne_ret hi hne
    have hland : place is first p = first + p := by
      unfold place
      omega
    rw [← getElem?_keptInstructions hp] at hi
    obtain ⟨o, ho, -, hj⟩ := h.carried hi hne
    rw [← hland] at hj
    refine ⟨_, .step ?_ hj ?_ harrives, ?_⟩
    · rw [Ne, h.place_eq_last]
      omega
    · rw [successors_carried hr ho hp]
      exact List.mem_map_of_mem hq
    · rw [List.map_append, List.map_append, visible_carried hr ho, htr]

/-- What the moved body does from where a position lands until the end of the block, the source does
from that position until it returns. -/
theorem walk_of_arrives {p' : Nat} {tr' : List Instruction} (ha : Arrives js last p' tr') :
    ∀ {p}, p ≤ is.length → p' = place is first p → ∃ tr r, Walk is p tr r ∧ HasReturned is r
      ∧ tr.map (Instruction.mapOperand? remap) = tr'.map some := by
  induction ha with
  | here =>
    intro p hp heq
    exact ⟨[], p, .done p, hasReturned_of_kept_le hp (h.place_eq_last.mp heq.symm), rfl⟩
  | @step p' q' j tr' hne hj hq rest ih =>
    intro p hp heq
    subst heq
    have hlt : p < (keptInstructions is).length := by
      rw [Ne, h.place_eq_last] at hne
      omega
    have hlen := length_keptInstructions_le is
    have hland : place is first p = first + p := by
      unfold place
      omega
    rw [hland] at hj
    obtain ⟨i, hi⟩ : ∃ i, (keptInstructions is)[p]? = some i := ⟨_, List.getElem?_eq_getElem hlt⟩
    have hsource := hi
    rw [getElem?_keptInstructions hlt] at hsource
    by_cases hret : i.opcode = .ret
    · -- the jump that stands for a return goes straight to the end of the block
      rw [h.ret hi hret] at hj
      cases hj
      obtain rfl : q' = last := by
        simpa [Instruction.successors, Instruction.branch, Operand.targets,
          Instruction.fallsThrough] using hq
      cases rest with
      | here => exact ⟨[], p, .done p, .inr ⟨i, hsource, hret⟩, rfl⟩
      | step hne' _ _ _ => exact absurd rfl hne'
    · obtain ⟨o, ho, hin, hj'⟩ := h.carried hi hret
      rw [hj'] at hj
      cases hj
      rw [successors_carried hr ho hlt] at hq
      obtain ⟨q, hsucc, rfl⟩ := List.mem_map.mp hq
      have hle := succ_le (Nat.lt_of_lt_of_le hlt hlen) hin hsucc
      obtain ⟨tr, r, hw, hreturned, htr⟩ := ih hle rfl
      refine ⟨i.visible ++ tr, r, .step hsource hsucc hw, hreturned, ?_⟩
      rw [List.map_append, List.map_append, visible_carried hr ho, htr]

/-- A moved body returns by the traces by which its source returns. -/
theorem blockTraces_eq : blockTraces js first last = returnTraces remap is := by
  have hfirst : place is first 0 = first := by simp [place]
  ext t
  constructor
  · rintro ⟨tr', ha, rfl⟩
    obtain ⟨tr, r, hw, hreturned, htr⟩ := h.walk_of_arrives hr ha (Nat.zero_le _) hfirst.symm
    exact ⟨tr, ⟨r, hw, hreturned⟩, htr⟩
  · rintro ⟨tr, ⟨r, hw, hreturned⟩, rfl⟩
    obtain ⟨tr', ha, htr⟩ := h.arrives_of_walk hr hw hreturned
    rw [hfirst] at ha
    exact ⟨tr', ha, htr.symm⟩

/-! ### What a block lets out -/

omit hr in
theorem exists_kept {p : Nat} (hfirst : first ≤ p) (hlast : p < last) :
    ∃ k i, p = first + k ∧ (keptInstructions is)[k]? = some i := by
  have hk : p - first < (keptInstructions is).length := by
    have := h.last_eq
    omega
  exact ⟨p - first, _, by omega, List.getElem?_eq_getElem hk⟩

omit hr in
theorem opcode_ne_ret {p : Nat} {j : Instruction} (hfirst : first ≤ p) (hlast : p < last)
    (hj : js[p]? = some j) : j.opcode ≠ .ret := by
  obtain ⟨k, i, rfl, hi⟩ := h.exists_kept hfirst hlast
  by_cases hret : i.opcode = .ret
  · rw [h.ret hi hret] at hj
    cases hj
    simp [Instruction.branch]
  · obtain ⟨o, -, -, hj'⟩ := h.carried hi hret
    rw [hj'] at hj
    cases hj
    exact hret

/-- No path leaves a block but at its end. -/
theorem encloses : Encloses js first last := by
  intro p j q hfirst hlast hj hq
  have hend := h.last_eq
  obtain ⟨k, i, rfl, hi⟩ := h.exists_kept hfirst hlast
  by_cases hret : i.opcode = .ret
  · rw [h.ret hi hret] at hj
    cases hj
    obtain rfl : q = last := by
      simpa [Instruction.successors, Instruction.branch, Operand.targets,
        Instruction.fallsThrough] using hq
    omega
  · obtain ⟨o, ho, -, hj'⟩ := h.carried hi hret
    rw [hj'] at hj
    cases hj
    have hk : k < (keptInstructions is).length := (List.getElem?_eq_some_iff.mp hi).1
    have hland : first + k = place is first k := by
      unfold place
      omega
    rw [hland, successors_carried hr ho hk] at hq
    obtain ⟨r, -, rfl⟩ := List.mem_map.mp hq
    unfold place
    omega

omit hr in
theorem exists_of_mem_ids {p : Nat} {j : Instruction} (hfirst : first ≤ p) (hlast : p < last)
    (hj : js[p]? = some j) {x : TableKind × Nat} (hx : x ∈ j.operand.ids) :
    ∃ i ∈ is, ∃ o, remap i.operand = some o ∧ x ∈ o.ids := by
  obtain ⟨k, i, rfl, hi⟩ := h.exists_kept hfirst hlast
  by_cases hret : i.opcode = .ret
  · rw [h.ret hi hret] at hj
    cases hj
    cases hx
  · obtain ⟨o, ho, -, hj'⟩ := h.carried hi hret
    rw [hj'] at hj
    cases hj
    rw [Operand.ids_retarget] at hx
    have hk : k < (keptInstructions is).length := (List.getElem?_eq_some_iff.mp hi).1
    rw [getElem?_keptInstructions hk] at hi
    exact ⟨i, List.mem_of_getElem? hi, o, ho, hx⟩

/-! ### Other blocks and maps -/

omit hr in
theorem append (rest : List Instruction) : Moved remap is (js ++ rest) first last where
  last_eq := h.last_eq
  ret hi hret := by
    have hj := h.ret hi hret
    rwa [List.getElem?_append_left (List.getElem?_eq_some_iff.mp hj).1]
  carried hi hret := by
    obtain ⟨o, ho, hin, hj⟩ := h.carried hi hret
    refine ⟨o, ho, hin, ?_⟩
    rwa [List.getElem?_append_left (List.getElem?_eq_some_iff.mp hj).1]

omit hr in
theorem mono {remap' : Operand → Option Operand}
    (hle : ∀ o o', remap o = some o' → remap' o = some o') : Moved remap' is js first last where
  last_eq := h.last_eq
  ret := h.ret
  carried hi hret := by
    obtain ⟨o, ho, hin, hj⟩ := h.carried hi hret
    exact ⟨o, hle _ _ ho, hin, hj⟩

end Moved

theorem forall₂_keptInstructions {R : Instruction → Instruction → Prop} {is js : List Instruction}
    (h : List.Forall₂ R is js) (hop : ∀ i j, R i j → j.opcode = i.opcode) :
    List.Forall₂ R (keptInstructions is) (keptInstructions js) := by
  -- the last instructions have one opcode, which decides whether they are kept
  have hlast : (js.getLast?.any fun j ↦ j.opcode = .ret)
      = is.getLast?.any fun i ↦ i.opcode = .ret := by
    induction h with
    | nil => rfl
    | cons hij rest ih =>
      cases rest with
      | nil => simp [hop _ _ hij]
      | cons _ _ => simpa only [List.getLast?_cons_cons] using ih
  unfold keptInstructions
  rw [hlast]
  split
  · rw [List.dropLast_eq_take, List.dropLast_eq_take, h.length_eq]
    exact List.forall₂_take _ h
  · exact h

/-- A body that was remapped first and moved then has been moved with its operands remapped. -/
theorem Moved.of_remapped {remap : Operand → Option Operand} {is ms js : List Instruction}
    {first last : Nat} (h : Moved some ms js first last) (hr : KeepsTargets remap)
    (hms : List.Forall₂ (fun i m ↦ i.mapOperand? remap = some m) is ms) :
    Moved remap is js first last := by
  have hkept := forall₂_keptInstructions hms fun i m hm ↦ by
    obtain ⟨o, -, rfl⟩ := Option.map_eq_some_iff.mp hm
    rfl
  have hplace : place ms first = place is first := by
    funext p
    rw [place, place, hkept.length_eq]
  have hget : ∀ {p : Nat} {i : Instruction}, (keptInstructions is)[p]? = some i →
      ∃ o, remap i.operand = some o
        ∧ (keptInstructions ms)[p]? = some { i with operand := o } := by
    intro p i hi
    obtain ⟨hp, rfl⟩ := List.getElem?_eq_some_iff.mp hi
    have hp' := hkept.length_eq ▸ hp
    obtain ⟨o, ho, hm⟩ := Option.map_eq_some_iff.mp (hkept.get hp hp')
    exact ⟨o, ho, by rw [List.getElem?_eq_getElem hp']; exact congrArg some hm.symm⟩
  constructor
  case last_eq => rw [h.last_eq, hkept.length_eq]
  case ret =>
    intro p i hi hret
    obtain ⟨o, -, hm⟩ := hget hi
    exact h.ret hm hret
  case carried =>
    intro p i hi hret
    obtain ⟨o, ho, hm⟩ := hget hi
    obtain ⟨o', ho', hin, hj⟩ := h.carried hm hret
    cases ho'
    refine ⟨o, ho, ?_, hplace ▸ hj⟩
    rw [hms.length_eq, ← hr.targets ho]
    exact hin

end ModuleLinker
