import ModuleLinker.Import.State

/-!
# Declaring types

Declaring gives an input type its place in the output before any signature mentions it. The type's
own place is decided by its name in the container: a free name is taken; a taken name means a
renamed type when the type is hidden, and the type that is already there when it is not. The types
nested in it are declared inside that place, before anything else.

Nested lists of an input may be circular, list a type twice, or contradict the declaring types. A
type is declared once all the same: the work list drops types that are mapped, and mapping a type
uses up its nested list, so the measure `declareAll` recurses on goes down in every step.

What such lists can keep from ending are the decisions about hiding. So declaring asks in the end
whether it came to a decision about every type that it had to decide about.
-/

namespace ModuleLinker

/-- A type that is to be declared. -/
structure Pending where
  type : TypeId
  /-- The type of the output to declare it in; none for a top-level type. -/
  container : Option TypeId
  /-- Whether it is hidden. -/
  hide : Bool
deriving DecidableEq

namespace ImportState

/-! ## One type -/

/-- Add the outside of a type to the output: no base, no members. -/
def addShell (s : ImportState) (t : TypeDef) (p : Pending) (name : String) : TypeId × ImportState :=
  let (id, target) := s.target.addType {
    nspace := t.nspace
    name
    visibility := if p.hide then t.visibility.internalized else t.visibility
    isSerializable := t.isSerializable
    attributes := t.attributes
    declaring := p.container }
  (id, { s with target })

/-- The place of a type in the output, apart from the map. -/
def place (s : ImportState) (ctx : Context) (m : ModuleId) (p : Pending) : TypeId × ImportState :=
  let source := ctx.module m
  let t := source.typeDef p.type
  if t.isModuleType then
    let (id, target) := s.target.ensureModuleType
    (id, { s with target })
  else
    let qualified := s.target.nameIn p.container t.nspace t.name
    match s.target.lookup? qualified with
    | none => s.addShell t p t.name
    | some existing =>
      if p.hide then
        let name := s.target.freshName p.container t.nspace t.name source.name
        let noted : Renaming := { module := source.name, name := qualified, renamed := name }
        { s with renamed := s.renamed ++ [noted] }.addShell t p name
      else
        let keptFrom := match s.map.typeOrigin? existing with
          | some origin => (ctx.module origin).name
          | none => s.target.name
        let noted : Conflict := { name := qualified, keptFrom, mergedFrom := source.name }
        (existing, { s with conflicts := s.conflicts ++ [noted] })

/-- Place a type and enter it in the map. -/
def declareOne (s : ImportState) (ctx : Context) (m : ModuleId) (p : Pending) :
    TypeId × ImportState :=
  let placed := s.place ctx m p
  let map := placed.2.map.record m (.type p.type) (.type (.definition placed.1))
  (placed.1, { placed.2 with map := map.recordSource placed.1 m p.type })

/-- The types to declare inside a type that has just been placed. -/
def nestedPending (ctx : Context) (m : ModuleId) (type target : TypeId) : List Pending :=
  ((ctx.module m).typeDef type).nested.map fun nested ↦
    { type := nested, container := some target, hide := ctx.internalizesType m nested }

/-! ## The measure -/

/-- The length of the nested lists of the types of a module that have not been mapped. -/
def nestedLeft (s : ImportState) (ctx : Context) (m : ModuleId) : Nat :=
  (((ctx.module m).typeIds.filter fun id ↦ !s.map.contains m (.type id)).flatMap fun id ↦
    ((ctx.module m).typeDef id).nested).length

@[simp] theorem map_place (s : ImportState) (ctx : Context) (m : ModuleId) (p : Pending) :
    (s.place ctx m p).2.map = s.map := by
  unfold place
  dsimp only
  split
  · rfl
  · split
    · rfl
    · split <;> rfl

theorem contains_declareOne (s : ImportState) (ctx : Context) (m m' : ModuleId) (p : Pending)
    (symbol : Symbol) :
    (s.declareOne ctx m p).2.map.contains m' symbol
      = (decide ((m', symbol) = (m, .type p.type)) || s.map.contains m' symbol) := by
  have h : (s.declareOne ctx m p).2.map.contains m' symbol
      = ((s.place ctx m p).2.map.record m (.type p.type)
          (.type (.definition (s.place ctx m p).1))).contains m' symbol := rfl
  rw [h, SymbolMap.contains_record, map_place]

private theorem length_flatMap_filter_add_le {α β : Type} (f : α → List β)
    (keep keep' : α → Bool) (a : α) (ha : keep a = true) (ha' : keep' a = false)
    (hle : ∀ x, keep' x = true → keep x = true) (xs : List α) (hmem : a ∈ xs) :
    ((xs.filter keep').flatMap f).length + (f a).length
      ≤ ((xs.filter keep).flatMap f).length := by
  have hmono : ∀ ys : List α,
      ((ys.filter keep').flatMap f).length ≤ ((ys.filter keep).flatMap f).length := by
    intro ys
    induction ys with
    | nil => exact Nat.le_refl _
    | cons y ys ih =>
      by_cases h' : keep' y = true
      · rw [List.filter_cons_of_pos h', List.filter_cons_of_pos (hle y h'), List.flatMap_cons,
          List.flatMap_cons, List.length_append, List.length_append]
        exact Nat.add_le_add_left ih _
      · rw [List.filter_cons_of_neg h']
        by_cases h : keep y = true
        · rw [List.filter_cons_of_pos h, List.flatMap_cons, List.length_append]
          exact Nat.le_add_left_of_le ih
        · rw [List.filter_cons_of_neg h]
          exact ih
  induction xs with
  | nil => cases hmem
  | cons x xs ih =>
    by_cases hx : x = a
    · subst hx
      have := hmono xs
      rw [List.filter_cons_of_neg (by simp [ha']), List.filter_cons_of_pos ha, List.flatMap_cons,
        List.length_append]
      omega
    · have := ih (List.mem_of_ne_of_mem (Ne.symm hx) hmem)
      by_cases h' : keep' x = true
      · rw [List.filter_cons_of_pos h', List.filter_cons_of_pos (hle x h'), List.flatMap_cons,
          List.flatMap_cons, List.length_append, List.length_append]
        omega
      · rw [List.filter_cons_of_neg h']
        by_cases h : keep x = true
        · rw [List.filter_cons_of_pos h, List.flatMap_cons, List.length_append]
          omega
        · rw [List.filter_cons_of_neg h]
          exact this

/-- Mapping a type uses up its nested list. -/
theorem nestedLeft_declareOne (s : ImportState) (ctx : Context) (m : ModuleId) (p : Pending)
    (h : s.map.contains m (.type p.type) = false) :
    (s.declareOne ctx m p).2.nestedLeft ctx m + ((ctx.module m).typeDef p.type).nested.length
      ≤ s.nestedLeft ctx m := by
  by_cases hr : p.type.index < (ctx.module m).types.length
  · refine length_flatMap_filter_add_le _ _ _ p.type (by simp [h]) ?_ ?_ _
      (Module.mem_typeIds.mpr hr)
    · simp [contains_declareOne]
    · intro id
      simp only [contains_declareOne, Bool.not_or, Bool.and_eq_true]
      exact And.right
  · have hnil : ((ctx.module m).typeDef p.type).nested = [] := by
      unfold Module.typeDef
      rw [List.getD_eq_getElem?_getD, List.getElem?_eq_none (by omega)]
      rfl
    have hfilter : ((ctx.module m).typeIds.filter fun id ↦
        !(s.declareOne ctx m p).2.map.contains m (.type id))
        = (ctx.module m).typeIds.filter fun id ↦ !s.map.contains m (.type id) := by
      refine List.filter_congr fun id hid ↦ ?_
      have hne : id ≠ p.type := fun he ↦ hr (he ▸ Module.mem_typeIds.mp hid)
      simp [contains_declareOne, hne]
    unfold nestedLeft
    rw [hfilter, hnil]
    exact Nat.le_refl _

/-! ## All types of a work list -/

/-- Declare the types of a work list, each with the types nested in it before the next one. -/
def declareAll (ctx : Context) (m : ModuleId) (s : ImportState) : List Pending → ImportState
  | [] => s
  | p :: rest =>
    if s.map.contains m (.type p.type) then declareAll ctx m s rest
    else
      let placed := s.declareOne ctx m p
      declareAll ctx m placed.2 (nestedPending ctx m p.type placed.1 ++ rest)
termination_by work => work.length + s.nestedLeft ctx m
decreasing_by
  · simp
  · next h =>
    have hlt := nestedLeft_declareOne s ctx m p (by simpa using h)
    simp only [nestedPending, List.length_append, List.length_map, List.length_cons]
    omega

/-- Declare one type; the result is its place in the output. -/
def declare (s : ImportState) (ctx : Context) (m : ModuleId) (p : Pending) :
    TypeId × ImportState :=
  let s := declareAll ctx m s [p]
  ((s.map.typeOf? m p.type).getD default, s)

/-! ## Types that are needed -/

/-- The place of a type in the output; without one it is declared inside a container. -/
def ensureIn (s : ImportState) (ctx : Context) (m : ModuleId) (id : TypeId)
    (container : Option TypeId) : TypeId × ImportState :=
  match s.map.typeOf? m id with
  | some target => (target, s)
  | none => s.declare ctx m { type := id, container, hide := ctx.internalizesType m id }

/-- Declare the first type of a chain of declaring types, innermost first, unless it is declared
already. The types around it come first, and declaring one of them may declare it. -/
def ensureChain (ctx : Context) (m : ModuleId) : List TypeId → ImportState → TypeId × ImportState
  | [], s => (default, s)
  | [id], s => s.ensureIn ctx m id none
  | id :: outer :: rest, s =>
    match s.map.typeOf? m id with
    | some target => (target, s)
    | none =>
      let around := ensureChain ctx m (outer :: rest) s
      around.2.ensureIn ctx m id (some around.1)

/-- A type that has a place is not declared, nor are the types around it. -/
theorem ensureChain_of_typeOf? {s : ImportState} {ctx : Context} {m : ModuleId} {id t : TypeId}
    (h : s.map.typeOf? m id = some t) (rest : List TypeId) :
    ensureChain ctx m (id :: rest) s = (t, s) := by
  cases rest with
  | nil => simp only [ensureChain, ensureIn, h]
  | cons _ _ => simp only [ensureChain, h]

/-! ## Decisions on the way -/

/-- The types of a module that have been entered between two states. -/
def enteredSince (s s' : ImportState) (ctx : Context) (m : ModuleId) : List TypeId :=
  (ctx.module m).typeIds.filter fun id ↦
    s'.map.contains m (.type id) && !s.map.contains m (.type id)

@[simp] theorem enteredSince_self (s : ImportState) (ctx : Context) (m : ModuleId) :
    s.enteredSince s ctx m = [] :=
  List.filter_eq_nil_iff.mpr fun id _ ↦ by simp

/-- The types that are listed in those that have been entered between two states. Each was decided
about, whether it had a place or not. -/
def listedSince (s s' : ImportState) (ctx : Context) (m : ModuleId) : List TypeId :=
  (s.enteredSince s' ctx m).flatMap fun id ↦ ((ctx.module m).typeDef id).nested

end ImportState

namespace Import

/-- Declare types of a module. It has to come to a decision about each type that is asked about
on the way, or the declaring does not end. -/
def deciding {α : Type} (ctx : Context) (m : ModuleId)
    (asked : ImportState → ImportState → List TypeId) (declare : ImportState → α × ImportState) :
    Import α := fun s ↦
  let (a, s') := declare s
  if (asked s s').all (ctx.decides m) then .ok a s'
  else .error (.endlessDecision (ctx.module m).name) s

theorem deciding_eq_ok_iff {α : Type} {ctx : Context} {m : ModuleId}
    {asked : ImportState → ImportState → List TypeId} {declare : ImportState → α × ImportState}
    {s s' : ImportState} {a : α} : deciding ctx m asked declare s = .ok a s'
      ↔ declare s = (a, s') ∧ ∀ x ∈ asked s s', ctx.decides m x = true := by
  unfold deciding
  obtain ⟨b, t⟩ := declare s
  by_cases h : (asked s t).all (ctx.decides m) = true
  · simp only [if_pos h, EStateM.Result.ok.injEq, Prod.mk.injEq]
    refine ⟨fun ⟨ha, hs⟩ ↦ ⟨⟨ha, hs⟩, ?_⟩, And.left⟩
    exact hs ▸ List.all_eq_true.mp h
  · simp only [if_neg h, reduceCtorEq, false_iff, Prod.mk.injEq]
    rintro ⟨⟨-, rfl⟩, hall⟩
    exact h (List.all_eq_true.mpr hall)

theorem deciding_eq_error {α : Type} {ctx : Context} {m : ModuleId}
    {asked : ImportState → ImportState → List TypeId} {declare : ImportState → α × ImportState}
    {s : ImportState} {x : TypeId} (hx : x ∈ asked s (declare s).2)
    (hnot : ctx.decides m x = false) : deciding ctx m asked declare s
      = .error (.endlessDecision (ctx.module m).name) s := by
  have hall : ¬(asked s (declare s).2).all (ctx.decides m) = true := fun hall ↦ by
    rw [List.all_eq_true.mp hall x hx] at hnot
    cases hnot
  unfold deciding
  dsimp only
  rw [if_neg hall]

/-- The place of an input type in the output; it is declared with the types around it if need be. A
type that was entered was asked about itself, as a listed type or as one around. -/
def ensureDeclared (ctx : Context) (m : ModuleId) (id : TypeId) : Import TypeId := do
  match ← ofMap fun map ↦ map.typeOf? m id with
  | some target => return target
  | none =>
    deciding ctx m (fun s s' ↦ s.enteredSince s' ctx m ++ s.listedSince s' ctx m)
      (ImportState.ensureChain ctx m ((ctx.module m).declaringChain id))

theorem ensureDeclared_eq (ctx : Context) (m : ModuleId) (id : TypeId) :
    ensureDeclared ctx m id
      = deciding ctx m (fun s s' ↦ s.enteredSince s' ctx m ++ s.listedSince s' ctx m)
        (ImportState.ensureChain ctx m ((ctx.module m).declaringChain id)) := by
  funext s
  unfold ensureDeclared
  change EStateM.bind (ofMap fun map ↦ map.typeOf? m id) _ s = _
  cases ht : s.map.typeOf? m id with
  | none =>
    change (match s.map.typeOf? m id with
      | some target => pure target
      | none => _ : Import TypeId) s = _
    rw [ht]
  | some t =>
    obtain ⟨rest, hrest⟩ := Chain.follow_eq_cons
      (fun t ↦ ((ctx.module m).typeDef t).declaring) (ctx.module m).types.length id
    have hchain : ImportState.ensureChain ctx m (id :: rest) s = (t, s) :=
      ImportState.ensureChain_of_typeOf? ht rest
    rw [← hrest, ← Module.declaringChain] at hchain
    change (match s.map.typeOf? m id with
      | some target => pure target
      | none => _ : Import TypeId) s = _
    rw [ht, eq_comm]
    exact deciding_eq_ok_iff.mpr ⟨hchain, by simp [ImportState.listedSince]⟩

end Import

end ModuleLinker
