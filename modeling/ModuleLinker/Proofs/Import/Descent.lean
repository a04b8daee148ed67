import ModuleLinker.Proofs.Chain
import ModuleLinker.Proofs.ContractExemption
import ModuleLinker.Proofs.Import.Calls

/-!
# Declaring by descent

Declaring can be read as a descent: a type is given its place and entered in the map, and then each
type of its nested list is decided about and declared inside; a type that has a place is left at
once. A type that is needed descends the other way first, along its declaring types. Nothing in this
looks at how types hang together, and nested lists may lead round in circles.

The descent itself ends all the same. A type is entered before its nested list is looked at, so the
types that have been entered on the way down to an unplaced type all have places, and none of them
comes twice: there are fewer of them than types in the module. Along the declaring types nothing is
entered on the way, but those chains are finite.

The decisions are another descent, into the same lists, and that one enters nothing. So declaring
ends exactly when each decision that it asks for does, and then it does what working off a list
does. What it asks about is read off the two states: the types that have been entered in between,
and the types that are listed in them.
-/

namespace ModuleLinker

open Relation (ReflTransGen)

/-! ## The descent

The descent is the recursion as it is run: it decides about a type, enters it, and goes into its
nested list. A bound on the levels stands in for a stack that is not bounded. -/

/-- Declaring by descent: nothing when it has not come to an end within so many levels. Each type of
the nested list is decided about, and then declared. -/
def declareWithin (ctx : Context) (m : ModuleId) :
    (levels : Nat) → Pending → ImportState → Option (TypeId × ImportState)
  | 0, _, _ => none
  | levels + 1, p, s =>
    match s.map.typeOf? m p.type with
    | some existing => some (existing, s)
    | none => do
      let placed := s.declareOne ctx m p
      let s ← ((ctx.module m).typeDef p.type).nested.foldlM (fun s nested ↦ do
        let hide ← ctx.internalizesWithin m levels nested
        let inside ← declareWithin ctx m levels ⟨nested, some placed.1, hide⟩ s
        return inside.2) placed.2
      return (placed.1, s)

/-- A type whose container has a place: it is declared there, unless it has been by now. -/
def ensureInWithin (ctx : Context) (m : ModuleId) (levels : Nat) (id : TypeId)
    (container : Option TypeId) (s : ImportState) : Option (TypeId × ImportState) :=
  match s.map.typeOf? m id with
  | some existing => some (existing, s)
  | none => do
    let hide ← ctx.internalizesWithin m levels id
    declareWithin ctx m levels ⟨id, container, hide⟩ s

/-- A needed type by descent: its declaring type comes first, and declaring that may declare it. -/
def ensureWithin (ctx : Context) (m : ModuleId) :
    (levels : Nat) → TypeId → ImportState → Option (TypeId × ImportState)
  | 0, _, _ => none
  | levels + 1, id, s =>
    match s.map.typeOf? m id with
    | some existing => some (existing, s)
    | none =>
      match ((ctx.module m).typeDef id).declaring with
      | none => ensureInWithin ctx m levels id none s
      | some outer => do
        let around ← ensureWithin ctx m levels outer s
        ensureInWithin ctx m levels id (some around.1) around.2

/-! ## Decisions

Two readings of a run are compared, by work list and by descent. The work list decides about all
types after the fact, so what has been entered in between has to be read off the two states. -/

/-- The decision whether a type is hidden comes to an end. -/
def Context.DecisionEnds (ctx : Context) (m : ModuleId) (id : TypeId) : Prop :=
  ∃ levels b, ctx.internalizesWithin m levels id = some b

theorem Context.internalizesWithin_eq_some {ctx : Context} {m : ModuleId} {levels : Nat}
    {id : TypeId} {b : Bool} (h : ctx.internalizesWithin m levels id = some b) :
    ctx.decides m id = true ∧ ctx.internalizesType m id = b :=
  Policy.hidesWithin_eq_some h

theorem Context.internalizesWithin_of_decides {ctx : Context} {m : ModuleId} {levels : Nat}
    {id : TypeId} (h : ctx.decides m id = true) (hlevels : (ctx.module m).descentBound ≤ levels) :
    ctx.internalizesWithin m levels id = some (ctx.internalizesType m id) :=
  Policy.hidesWithin_of_decides h hlevels

theorem Context.decides_iff {ctx : Context} {m : ModuleId} {id : TypeId} :
    ctx.decides m id = true ↔ ctx.DecisionEnds m id :=
  ⟨fun h ↦ ⟨_, _, internalizesWithin_of_decides h (Nat.le_refl _)⟩,
    fun ⟨_, _, h⟩ ↦ (internalizesWithin_eq_some h).1⟩

namespace ImportState

variable {ctx : Context} {m : ModuleId} {s s' s'' : ImportState}

/-- What has been entered between two states has a property. -/
def Between (s s' : ImportState) (m : ModuleId) (P : TypeId → Prop) : Prop :=
  ∀ id, s'.map.contains m (.type id) = true → s.map.contains m (.type id) = false → P id

namespace Between

variable {P : TypeId → Prop}

theorem refl (s : ImportState) : s.Between s m P := fun _ hin hout ↦ by
  rw [hin] at hout
  cases hout

theorem trans (h : s.Between s' m P) (h' : s'.Between s'' m P) : s.Between s'' m P := by
  intro id hin hout
  cases hmid : s'.map.contains m (.type id) with
  | true => exact h id hmid hout
  | false => exact h' id hin hmid

theorem mono {Q : TypeId → Prop} (h : s.Between s' m P) (hPQ : ∀ id, P id → Q id) :
    s.Between s' m Q := fun id hin hout ↦ hPQ id (h id hin hout)

end Between

/-- The types listed in what has been entered between two states have been decided about. -/
abbrev ListsDecided (s s' : ImportState) (ctx : Context) (m : ModuleId) : Prop :=
  s.Between s' m fun id ↦ ∀ nested ∈ ((ctx.module m).typeDef id).nested,
    ctx.decides m nested = true

/-- What has been entered between two states has been decided about. -/
abbrev Asked (s s' : ImportState) (ctx : Context) (m : ModuleId) : Prop :=
  s.Between s' m fun id ↦ ctx.decides m id = true

theorem mem_enteredSince {id : TypeId} : id ∈ s.enteredSince s' ctx m
    ↔ id.index < (ctx.module m).types.length ∧ s'.map.contains m (.type id) = true
      ∧ s.map.contains m (.type id) = false := by
  simp [enteredSince, Module.mem_typeIds]

theorem listsDecided_iff : s.ListsDecided s' ctx m
    ↔ ∀ x ∈ s.listedSince s' ctx m, ctx.decides m x = true := by
  simp only [ListsDecided, Between, listedSince, List.mem_flatMap, mem_enteredSince]
  constructor
  · rintro h x ⟨id, ⟨-, hin, hout⟩, hx⟩
    exact h id hin hout x hx
  · intro h id hin hout x hx
    refine h x ⟨id, ⟨?_, hin, hout⟩, hx⟩
    by_contra hid
    rw [Module.typeDef_of_not_lt hid] at hx
    cases hx

theorem Between.left {P : TypeId → Prop} (h : s.Between s'' m P)
    (hmap : s'.map.Extends s''.map) : s.Between s' m P := fun id hin ↦ h id (hmap.contains hin)

theorem Between.right {P : TypeId → Prop} (h : s.Between s'' m P)
    (hmap : s.map.Extends s'.map) : s'.Between s'' m P := fun id hin hout ↦ h id hin <| by
  rw [← Bool.not_eq_true] at hout ⊢
  exact mt hmap.contains hout

theorem contains_of_typeOf? {id t : TypeId} (h : s.map.typeOf? m id = some t) :
    s.map.contains m (.type id) = true :=
  Option.isSome_iff_exists.mpr ⟨_, SymbolMap.typeOf?_eq_some.mp h⟩

theorem between_declareOne (s : ImportState) (ctx : Context) (m : ModuleId) (p : Pending) :
    s.Between (s.declareOne ctx m p).2 m (· = p.type) := by
  intro id hin hout
  rw [contains_declareOne, hout, Bool.or_false, decide_eq_true_eq] at hin
  cases hin
  rfl

theorem contains_declareAll {work : List Pending} {symbol : Symbol}
    (h : s.map.contains m symbol = true) :
    (declareAll ctx m s work).map.contains m symbol = true := by
  fun_induction declareAll ctx m s work with
  | case1 s => exact h
  | case2 s p rest hmapped ih => exact ih h
  | case3 s p rest hnew placed ih => exact ih (by rw [contains_declareOne, h, Bool.or_true])

/-- What working off a list enters is on the list, or is listed in what it enters. -/
theorem between_declareAll (s : ImportState) (ctx : Context) (m : ModuleId)
    (work : List Pending) : s.Between (declareAll ctx m s work) m fun id ↦
      id ∈ work.map Pending.type ∨ ∃ o, (declareAll ctx m s work).map.contains m (.type o) = true
        ∧ s.map.contains m (.type o) = false ∧ id ∈ ((ctx.module m).typeDef o).nested := by
  fun_induction declareAll ctx m s work with
  | case1 s => exact .refl s
  | case2 s p rest hmapped ih => exact ih.mono fun id h ↦ h.imp_left (List.mem_cons_of_mem _)
  | case3 s p rest hnew placed ih =>
    have hold := Bool.not_eq_true _ ▸ hnew
    intro id hin hout
    cases hmid : placed.2.map.contains m (.type id) with
    | true =>
      obtain rfl := between_declareOne s ctx m p id hmid hout
      exact .inl (List.mem_cons_self ..)
    | false =>
      rcases ih id hin hmid with hmem | ⟨o, ho, hnot, hlisted⟩
      · rw [List.map_append, List.mem_append] at hmem
        rcases hmem with hmem | hmem
        · -- it is listed in the type that has just been entered
          refine .inr ⟨p.type, contains_declareAll ?_, hold, ?_⟩
          · exact (contains_declareOne ..).trans (by simp)
          · simpa only [nestedPending, List.map_map, Function.comp_def, List.map_id'] using hmem
        · exact .inl (List.mem_cons_of_mem _ hmem)
      · refine .inr ⟨o, ho, ?_, hlisted⟩
        rw [contains_declareOne, Bool.or_eq_false_iff] at hnot
        exact hnot.2

theorem asked_declare {p : Pending} (hp : ctx.decides m p.type = true)
    (h : s.ListsDecided (s.declare ctx m p).2 ctx m) : s.Asked (s.declare ctx m p).2 ctx m := by
  intro id hin hout
  rcases between_declareAll s ctx m [p] id hin hout with hmem | ⟨o, ho, hnot, hlisted⟩
  · rwa [List.mem_singleton.mp hmem]
  · exact h o ho hnot id hlisted

/-- Types of a module that have been entered, none of them twice. -/
structure Entered (s : ImportState) (m : ModuleId) (types : List TypeId) : Prop where
  nodup : types.Nodup
  placed : ∀ id ∈ types, ∃ t, s.map.typeOf? m id = some t

variable {types : List TypeId}

namespace Entered

theorem nil : s.Entered m [] := ⟨.nil, List.forall_mem_nil _⟩

theorem mono (h : s.Entered m types) (hg : s.Grows s') : s'.Entered m types where
  nodup := h.nodup
  placed id hid := by
    obtain ⟨t, ht⟩ := h.placed id hid
    exact ⟨t, hg.map.typeOf? ht⟩

theorem length_le (h : s.Entered m types) (hs : s.Sound ctx) :
    types.length ≤ (ctx.module m).types.length := by
  refine Module.length_le_of_subset_typeIds h.nodup fun id hid ↦ ?_
  obtain ⟨t, ht⟩ := h.placed id hid
  exact Module.mem_typeIds.mpr (hs.inputs ht)

theorem declareOne {p : Pending} (h : s.Entered m types)
    (hfresh : s.map.find? m (.type p.type) = none) :
    (s.declareOne ctx m p).2.Entered m (p.type :: types) where
  nodup := by
    refine List.nodup_cons.mpr ⟨fun hmem ↦ ?_, h.nodup⟩
    obtain ⟨t, ht⟩ := h.placed _ hmem
    rw [SymbolMap.typeOf?_eq_some, hfresh] at ht
    cases ht
  placed := List.forall_mem_cons.mpr
    ⟨⟨_, typeOf?_declareOne hfresh⟩, (h.mono (grows_declareOne hfresh)).placed⟩

end Entered

theorem declareAll_append (ctx : Context) (m : ModuleId) (s : ImportState)
    (front back : List Pending) :
    declareAll ctx m s (front ++ back) = declareAll ctx m (declareAll ctx m s front) back := by
  fun_induction declareAll ctx m s front with
  | case1 s => rfl
  | case2 s p rest hmapped ih => rw [List.cons_append, declareAll, if_pos hmapped, ih]
  | case3 s p rest hnew placed ih =>
    rw [List.cons_append, declareAll, if_neg hnew, ← ih, List.append_assoc]

theorem declareAll_cons (ctx : Context) (m : ModuleId) (s : ImportState) (p : Pending)
    (rest : List Pending) :
    declareAll ctx m s (p :: rest) = declareAll ctx m (s.declare ctx m p).2 rest :=
  declareAll_append ctx m s [p] rest

end ImportState

namespace Import

open ImportState

variable {ctx : Context} {m : ModuleId} {s s' : ImportState}

section Accepted

variable (hctx : ctx.registry.Accepted)
include hctx

/-! ## Down the nested lists

Every level of the descent enters a type or finds that it has been entered. So the number of types
that have not been entered bounds the levels, and the induction is on that number. -/

section Listed

variable {levels : Nat} {container : TypeId} {nested : List TypeId}

/-- One after the other is working off the list, where each one that ends is declaring. -/
theorem foldlM_listed_sound
    (hdeclare : ∀ {s p r}, s.Sound ctx → p.Within ctx m s →
      declareWithin ctx m levels p s = some r → r = s.declare ctx m p ∧ s.ListsDecided r.2 ctx m)
    (hs : s.Sound ctx)
    (hwork : ∀ n ∈ nested,
      Pending.Fits ⟨n, some container, ctx.internalizesType m n⟩ ctx m s)
    (h : nested.foldlM (fun s n ↦ do
      let hide ← ctx.internalizesWithin m levels n
      let inside ← declareWithin ctx m levels ⟨n, some container, hide⟩ s
      return inside.2) s = some s') :
    s' = declareAll ctx m s (nested.map fun n ↦ ⟨n, some container, ctx.internalizesType m n⟩)
      ∧ s.ListsDecided s' ctx m ∧ ∀ n ∈ nested, ctx.decides m n = true := by
  induction nested generalizing s with
  | nil =>
    cases h
    exact ⟨by simp [declareAll], .refl _, List.forall_mem_nil _⟩
  | cons n rest ih =>
    obtain ⟨hn, hrest⟩ := List.forall_mem_cons.mp hwork
    simp only [List.foldlM_cons, Option.bind_eq_bind, Option.bind_eq_some_iff, Option.pure_def,
      Option.some.injEq] at h
    obtain ⟨s₁, ⟨hide, hhide, inside, hinside, rfl⟩, h⟩ := h
    obtain ⟨hdecides, rfl⟩ := Context.internalizesWithin_eq_some hhide
    obtain ⟨rfl, hlists⟩ := hdeclare hs (hs.within hn) hinside
    have hsteps := (declare_steps hctx hs hn).1
    have hgrows := DeclareStep.grows_steps hsteps
    obtain ⟨heq, hafter, hdecided⟩ := ih (DeclareStep.sound_steps hsteps hs)
      (fun n' hn' ↦ (hrest n' hn').mono hgrows) h
    refine ⟨?_, hlists.trans hafter, List.forall_mem_cons.mpr ⟨hdecides, hdecided⟩⟩
    rw [heq, List.map_cons, declareAll_cons]

/-- One after the other ends with the list worked off, where each one that is decided ends with
declaring. -/
theorem foldlM_listed_complete {types : List TypeId}
    (hdeclare : ∀ {s p}, s.Sound ctx → p.Fits ctx m s → s.Entered m types →
      s.ListsDecided (s.declare ctx m p).2 ctx m →
      declareWithin ctx m levels p s = some (s.declare ctx m p))
    (hlevels : (ctx.module m).descentBound ≤ levels) (hs : s.Sound ctx)
    (hwork : ∀ n ∈ nested,
      Pending.Fits ⟨n, some container, ctx.internalizesType m n⟩ ctx m s)
    (hentered : s.Entered m types) (hdecided : ∀ n ∈ nested, ctx.decides m n = true)
    (hlists : s.ListsDecided (declareAll ctx m s
      (nested.map fun n ↦ ⟨n, some container, ctx.internalizesType m n⟩)) ctx m) :
    nested.foldlM (fun s n ↦ do
      let hide ← ctx.internalizesWithin m levels n
      let inside ← declareWithin ctx m levels ⟨n, some container, hide⟩ s
      return inside.2) s
      = some (declareAll ctx m s
        (nested.map fun n ↦ ⟨n, some container, ctx.internalizesType m n⟩)) := by
  induction nested generalizing s with
  | nil => simp [declareAll]
  | cons n rest ih =>
    obtain ⟨hn, hrest⟩ := List.forall_mem_cons.mp hwork
    obtain ⟨hdecides, hdecided⟩ := List.forall_mem_cons.mp hdecided
    rw [List.map_cons, declareAll_cons] at hlists ⊢
    have hsteps := (declare_steps hctx hs hn).1
    have hgrows := DeclareStep.grows_steps hsteps
    have hsound := DeclareStep.sound_steps hsteps hs
    have hrest : ∀ n' ∈ rest, Pending.Fits ⟨n', some container, ctx.internalizesType m n'⟩ ctx m
        (s.declare ctx m ⟨n, some container, ctx.internalizesType m n⟩).2 :=
      fun n' hn' ↦ (hrest n' hn').mono hgrows
    have hgrows' := DeclareStep.grows_steps
      (declareAll_steps hctx hsound (List.forall_mem_map.mpr hrest)).1
    have hinside := hdeclare hs hn hentered (hlists.left hgrows'.map)
    have hafter := ih hsound hrest (hentered.mono hgrows) hdecided (hlists.right hgrows.map)
    rw [List.foldlM_cons, Context.internalizesWithin_of_decides hdecides hlevels]
    simp only [Option.bind_eq_bind, Option.bind_some, hinside, Option.pure_def]
    exact hafter

end Listed

/-- A descent that ends does what declaring does, and has decided about whatever is listed. -/
theorem declareWithin_sound {levels : Nat} {p : Pending} {r : TypeId × ImportState}
    (hs : s.Sound ctx) (hin : p.Within ctx m s)
    (h : declareWithin ctx m levels p s = some r) :
    r = s.declare ctx m p ∧ s.ListsDecided r.2 ctx m := by
  induction levels generalizing s p r with
  | zero => cases h
  | succ levels ih =>
    unfold declareWithin at h
    cases ht : s.map.typeOf? m p.type with
    | some t =>
      rw [ht] at h
      cases h
      exact ⟨(declare_eq_of_typeOf? ht).symm, .refl s⟩
    | none =>
      have hfresh := hs.find?_type_eq_none ht
      obtain ⟨hdeclare, hfits⟩ := declare_eq_of_fresh hctx hs hin hfresh
      simp only [ht, Option.bind_eq_bind, Option.bind_eq_some_iff, Option.pure_def,
        Option.some.injEq] at h
      obtain ⟨s', hfold, rfl⟩ := h
      obtain ⟨rfl, hlists, hdecided⟩ := foldlM_listed_sound hctx
        (fun hs hin h ↦ ih hs hin h) (hs.enter hfresh hin)
        (fun n hn ↦ hfits _ (List.mem_map_of_mem hn)) hfold
      refine ⟨hdeclare.symm, Between.trans ?_ hlists⟩
      intro id hin' hout
      rw [between_declareOne s ctx m p id hin' hout]
      exact hdecided

/-- The descent ends with what declaring does, if that is decided and there are more levels than
types that have not been entered. -/
theorem declareWithin_of_entered {levels : Nat} {types : List TypeId} {p : Pending}
    (hs : s.Sound ctx) (hin : p.Within ctx m s) (hentered : s.Entered m types)
    (hlists : s.ListsDecided (s.declare ctx m p).2 ctx m)
    (hlevels : 2 * (ctx.module m).types.length + 1 < types.length + levels) :
    declareWithin ctx m levels p s = some (s.declare ctx m p) := by
  induction levels generalizing s p types with
  | zero => exact absurd (hentered.length_le hs) (by omega)
  | succ levels ih =>
    unfold declareWithin
    cases ht : s.map.typeOf? m p.type with
    | some t => rw [declare_eq_of_typeOf? ht]
    | none =>
      have hfresh := hs.find?_type_eq_none ht
      obtain ⟨hdeclare, hfits⟩ := declare_eq_of_fresh hctx hs hin hfresh
      have hfits : ∀ n ∈ ((ctx.module m).typeDef p.type).nested, Pending.Fits
          ⟨n, some (s.declareOne ctx m p).1, ctx.internalizesType m n⟩ ctx m
          (s.declareOne ctx m p).2 := fun n hn ↦ hfits _ (List.mem_map_of_mem hn)
      -- the type is entered before its nested list is looked at
      have hentered' : (s.declareOne ctx m p).2.Entered m (p.type :: types) :=
        hentered.declareOne hfresh
      have hlevels' : 2 * (ctx.module m).types.length + 1 < (p.type :: types).length + levels := by
        rw [List.length_cons]
        omega
      have hbound : (ctx.module m).descentBound ≤ levels := by
        have := hentered'.length_le (hs.enter hfresh hin)
        unfold Module.descentBound
        omega
      rw [hdeclare] at hlists
      have hentry : (s.declareOne ctx m p).2.map.contains m (.type p.type) = true :=
        contains_of_typeOf? (typeOf?_declareOne hfresh)
      have hnew : s.map.contains m (.type p.type) = false := by
        rw [SymbolMap.contains, Table.contains, ← SymbolMap.find?, hfresh, Option.isSome_none]
      have hnested := foldlM_listed_complete hctx
        (fun hs hfits hentered hlists ↦ ih hs (hs.within hfits) hentered hlists hlevels')
        hbound (hs.enter hfresh hin) hfits hentered'
        (hlists p.type (contains_declareAll hentry) hnew)
        (hlists.right (grows_declareOne hfresh).map)
      rw [hdeclare]
      dsimp only
      rw [hnested]
      rfl

theorem declareWithin_eq {levels : Nat} {p : Pending} (hs : s.Sound ctx) (hin : p.Within ctx m s)
    (hlists : s.ListsDecided (s.declare ctx m p).2 ctx m)
    (hlevels : 2 * (ctx.module m).types.length + 1 < levels) :
    declareWithin ctx m levels p s = some (s.declare ctx m p) :=
  declareWithin_of_entered hctx hs hin .nil hlists (by simpa using hlevels)

/-! ## Up the declaring types

A type that is needed is declared in its declaring type, which is declared first. That goes up a
chain which ends, and declaring one of its types may already give a place to the next. -/

section Ensure

variable {levels : Nat} {id : TypeId} {container : Option TypeId}

theorem extends_ensureIn (hs : s.Sound ctx) (hid : id.index < (ctx.module m).types.length)
    (hcontainer : ∀ o, container = some o → o.index < s.target.types.length) :
    s.map.Extends (s.ensureIn ctx m id container).2.map := by
  unfold ensureIn
  cases ht : s.map.typeOf? m id with
  | some t => exact .refl s.map
  | none => exact (CallStep.keeps_steps (declare_callSteps hctx hs ⟨hid, hcontainer⟩).1).map

theorem ensureInWithin_sound {r : TypeId × ImportState} (hs : s.Sound ctx)
    (hid : id.index < (ctx.module m).types.length)
    (hcontainer : ∀ o, container = some o → o.index < s.target.types.length)
    (h : ensureInWithin ctx m levels id container s = some r) :
    r = s.ensureIn ctx m id container ∧ s.ListsDecided r.2 ctx m ∧ s.Asked r.2 ctx m := by
  unfold ensureInWithin at h
  unfold ensureIn
  cases ht : s.map.typeOf? m id with
  | some t =>
    rw [ht] at h
    cases h
    exact ⟨rfl, .refl s, .refl s⟩
  | none =>
    simp only [ht, Option.bind_eq_bind, Option.bind_eq_some_iff] at h
    obtain ⟨hide, hhide, hdeclare⟩ := h
    obtain ⟨hdecides, rfl⟩ := Context.internalizesWithin_eq_some hhide
    obtain ⟨rfl, hlists⟩ := declareWithin_sound hctx hs ⟨hid, hcontainer⟩ hdeclare
    exact ⟨rfl, hlists, asked_declare hdecides hlists⟩

theorem ensureInWithin_eq (hs : s.Sound ctx) (hid : id.index < (ctx.module m).types.length)
    (hcontainer : ∀ o, container = some o → o.index < s.target.types.length)
    (hlists : s.ListsDecided (s.ensureIn ctx m id container).2 ctx m)
    (hasked : s.Asked (s.ensureIn ctx m id container).2 ctx m)
    (hlevels : 2 * (ctx.module m).types.length + 1 < levels) :
    ensureInWithin ctx m levels id container s = some (s.ensureIn ctx m id container) := by
  unfold ensureIn at hlists hasked ⊢
  unfold ensureInWithin
  cases ht : s.map.typeOf? m id with
  | some t => rfl
  | none =>
    rw [ht] at hlists hasked
    have hin : Pending.Within ⟨id, container, ctx.internalizesType m id⟩ ctx m s :=
      ⟨hid, hcontainer⟩
    have hplace := (declare_callSteps hctx hs hin).2
    have hnew : s.map.contains m (.type id) = false := by
      rw [SymbolMap.contains, Table.contains, ← SymbolMap.find?, hs.find?_type_eq_none ht,
        Option.isSome_none]
    have hbound : (ctx.module m).descentBound ≤ levels := by
      unfold Module.descentBound
      omega
    have hdecides := hasked id (contains_of_typeOf? hplace) hnew
    simp only [Context.internalizesWithin_of_decides hdecides hbound, Option.bind_eq_bind,
      Option.bind_some]
    exact declareWithin_eq hctx hs hin hlists hlevels

/-- Going up a chain of declaring types, if it ends, does what declaring the chain does, and has
decided about whatever it enters. -/
theorem ensureWithin_sound {rest : List TypeId} {r : TypeId × ImportState} (hs : s.Sound ctx)
    (hchain : Chain.Complete (fun t ↦ ((ctx.module m).typeDef t).declaring) (id :: rest))
    (hin : ∀ o ∈ id :: rest, o.index < (ctx.module m).types.length)
    (h : ensureWithin ctx m levels id s = some r) :
    r = ensureChain ctx m (id :: rest) s ∧ s.ListsDecided r.2 ctx m ∧ s.Asked r.2 ctx m := by
  induction rest generalizing id levels r with
  | nil =>
    cases levels with
    | zero => cases h
    | succ levels =>
      cases hchain with
      | last hlast =>
        unfold ensureWithin at h
        cases ht : s.map.typeOf? m id with
        | some t =>
          rw [ht] at h
          cases h
          exact ⟨(ensureChain_of_typeOf? ht []).symm, .refl s, .refl s⟩
        | none =>
          simp only [ht, hlast] at h
          exact ensureInWithin_sound hctx hs (hin id (List.mem_cons_self ..))
            (fun o ho ↦ by cases ho) h
  | cons outer rest ih =>
    cases levels with
    | zero => cases h
    | succ levels =>
      cases hchain with
      | link hlink hrest =>
        obtain ⟨hid, hin⟩ := List.forall_mem_cons.mp hin
        unfold ensureWithin at h
        cases ht : s.map.typeOf? m id with
        | some t =>
          rw [ht] at h
          cases h
          exact ⟨(ensureChain_of_typeOf? ht _).symm, .refl s, .refl s⟩
        | none =>
          simp only [ht, hlink, Option.bind_eq_bind, Option.bind_eq_some_iff] at h
          obtain ⟨around, haround, hinside⟩ := h
          obtain ⟨rfl, hlists, hasked⟩ := ih hrest hin haround
          obtain ⟨hsteps, hplace⟩ := ensureChain_steps hctx hs hrest hin
          have hsound := PlaceStep.sound_steps hsteps hs
          have houter := hsound.typeOf?_lt (hplace outer (by simp))
          obtain ⟨rfl, hlists', hasked'⟩ := ensureInWithin_sound hctx hsound hid
            (fun o ho ↦ by cases ho; exact houter) hinside
          refine ⟨?_, hlists.trans hlists', hasked.trans hasked'⟩
          rw [ensureChain, ht]

/-- Going up a chain of declaring types ends with what declaring the chain does, if that is
decided. -/
theorem ensureWithin_eq {rest : List TypeId} (hs : s.Sound ctx)
    (hchain : Chain.Complete (fun t ↦ ((ctx.module m).typeDef t).declaring) (id :: rest))
    (hin : ∀ o ∈ id :: rest, o.index < (ctx.module m).types.length)
    (hlists : s.ListsDecided (ensureChain ctx m (id :: rest) s).2 ctx m)
    (hasked : s.Asked (ensureChain ctx m (id :: rest) s).2 ctx m)
    (hlevels : 2 * (ctx.module m).types.length + 1 + (id :: rest).length < levels) :
    ensureWithin ctx m levels id s = some (ensureChain ctx m (id :: rest) s) := by
  induction rest generalizing id levels with
  | nil =>
    obtain ⟨levels, rfl⟩ := Nat.exists_eq_add_one_of_ne_zero (Nat.ne_zero_of_lt hlevels)
    cases hchain with
    | last hlast =>
      unfold ensureWithin
      cases ht : s.map.typeOf? m id with
      | some t => rw [ensureChain_of_typeOf? ht]
      | none =>
        simp only [hlast]
        exact ensureInWithin_eq hctx hs (hin id (List.mem_cons_self ..)) (fun o ho ↦ by cases ho)
          hlists hasked (Nat.lt_of_succ_lt_succ hlevels)
  | cons outer rest ih =>
    obtain ⟨levels, rfl⟩ := Nat.exists_eq_add_one_of_ne_zero (Nat.ne_zero_of_lt hlevels)
    cases hchain with
    | link hlink hrest =>
      obtain ⟨hid, hin⟩ := List.forall_mem_cons.mp hin
      have hlevels : 2 * (ctx.module m).types.length + 1 + (outer :: rest).length < levels :=
        Nat.lt_of_succ_lt_succ hlevels
      unfold ensureWithin
      cases ht : s.map.typeOf? m id with
      | some t => rw [ensureChain_of_typeOf? ht]
      | none =>
        obtain ⟨hsteps, hplace⟩ := ensureChain_steps hctx hs hrest hin
        have hgrows := PlaceStep.grows_steps hsteps
        have hsound := PlaceStep.sound_steps hsteps hs
        have houter := hsound.typeOf?_lt (hplace outer (by simp))
        have hcontainer : ∀ o, some (ensureChain ctx m (outer :: rest) s).1 = some o →
            o.index < (ensureChain ctx m (outer :: rest) s).2.target.types.length :=
          fun o ho ↦ by cases ho; exact houter
        rw [ensureChain, ht] at hlists hasked ⊢
        have hafter := extends_ensureIn hctx hsound hid hcontainer
        simp only [hlink, ih hrest hin (hlists.left hafter) (hasked.left hafter) hlevels,
          Option.bind_eq_bind, Option.bind_some]
        exact ensureInWithin_eq hctx hsound hid hcontainer (hlists.right hgrows.map)
          (hasked.right hgrows.map) (Nat.lt_of_le_of_lt (Nat.le_add_right _ _) hlevels)

omit hctx in
/-- The types that are asked about when a type is needed are those that are entered and those that
are listed in them. -/
theorem asked_iff (hs' : s'.Sound ctx) :
    (∀ x ∈ s.enteredSince s' ctx m ++ s.listedSince s' ctx m, ctx.decides m x = true)
      ↔ s.ListsDecided s' ctx m ∧ s.Asked s' ctx m := by
  rw [List.forall_mem_append, ← listsDecided_iff, and_comm]
  refine and_congr_right fun _ ↦ ⟨fun h id hin hout ↦ ?_, fun h x hx ↦ ?_⟩
  · obtain ⟨t, ht⟩ := hs'.typeOf?_of_contains hin
    exact h id (mem_enteredSince.mpr ⟨hs'.inputs ht, hin, hout⟩)
  · obtain ⟨-, hin, hout⟩ := mem_enteredSince.mp hx
    exact h x hin hout

/-- The descent to a type that is needed ends just when the type gets its place, and with the same
place. Three times as many levels as the module has types are more than enough. -/
theorem ensureWithin_iff {t : TypeId} (hs : s.Sound ctx)
    (hid : id.index < (ctx.module m).types.length) :
    ((∃ levels, ensureWithin ctx m levels id s = some (t, s'))
        ↔ ensureDeclared ctx m id s = .ok t s')
      ∧ (ensureDeclared ctx m id s = .ok t s' → ∀ levels,
        3 * (ctx.module m).types.length + 1 < levels →
        ensureWithin ctx m levels id s = some (t, s')) := by
  have hchain := Module.complete_declaringChain (Context.fault?_module hctx m) id
  have hin := declaringChain_lt hctx hid
  obtain ⟨rest, hrest⟩ := Chain.follow_eq_cons
    (fun t ↦ ((ctx.module m).typeDef t).declaring) (ctx.module m).types.length id
  rw [ensureDeclared_eq, deciding_eq_ok_iff]
  rw [Module.declaringChain, hrest] at hchain hin ⊢
  have hlen : (id :: rest).length ≤ (ctx.module m).types.length :=
    Module.length_le_of_subset_typeIds hchain.nodup fun o ho ↦ Module.mem_typeIds.mpr (hin o ho)
  have hsound := PlaceStep.sound_steps (ensureChain_steps hctx hs hchain hin).1 hs
  have hcomplete : ensureChain ctx m (id :: rest) s = (t, s')
      ∧ (∀ x ∈ s.enteredSince s' ctx m ++ s.listedSince s' ctx m, ctx.decides m x = true) →
      ∀ levels, 3 * (ctx.module m).types.length + 1 < levels →
        ensureWithin ctx m levels id s = some (t, s') := by
    rintro ⟨heq, hdecided⟩ levels hlevels
    rw [heq] at hsound
    obtain ⟨hlists, hasked⟩ := (asked_iff hsound).mp hdecided
    rw [← heq]
    exact ensureWithin_eq hctx hs hchain hin (by rwa [heq]) (by rwa [heq]) (by omega)
  refine ⟨⟨?_, fun h ↦ ⟨_, hcomplete h _ (Nat.lt_succ_self _)⟩⟩, hcomplete⟩
  rintro ⟨levels, h⟩
  obtain ⟨heq, hlists, hasked⟩ := ensureWithin_sound hctx hs hchain hin h
  rw [← heq] at hsound
  exact ⟨heq.symm, (asked_iff hsound).mpr ⟨hlists, hasked⟩⟩

end Ensure

end Accepted

end Import

end ModuleLinker
