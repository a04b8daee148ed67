import Mathlib.Data.List.Perm.Subperm
import ModuleLinker.Proofs.Import.Descent
import ModuleLinker.Proofs.Import.Firsts
import ModuleLinker.Proofs.Import.Placement
import ModuleLinker.Proofs.Table

/-!
# Every type is declared once

A type may be reached from any nested list that names it, from its declaring type, from the
signatures that mention it and from the sweep over its module. Whatever comes first finds it without
a place and declares it: that makes one entry of the map, one source of its place, and one type of
the output at most. Whatever comes later finds the place. So sources and types are counted together:
no input type is a source twice, and the output has no more types than there are sources.

Declaring ends if the decisions about hiding do. Those look for contracts in nested lists, without a
note of where they have been: a public type that lists itself is never decided about, if no contract
is found before.
-/

namespace ModuleLinker

open Relation (ReflTransGen)

/-! ## Sources with their places -/

namespace SymbolMap

/-- The sources of all types of the output, each with the type that it was mapped onto. -/
def placings (s : SymbolMap) : List (TypeId × (ModuleId × TypeId)) := s.sources.spread

/-- A source that is recorded is one more, wherever it stands. -/
theorem perm_placings_recordSource {s : SymbolMap} {target : TypeId} {m : ModuleId} {id : TypeId}
    (hnew : (m, id) ∉ s.sourcesOf target) :
    (s.recordSource target m id).placings.Perm ((target, (m, id)) :: s.placings) := by
  have hrecord : (s.recordSource target m id).sources
      = s.sources.insert target (s.sourcesOf target ++ [(m, id)]) := by
    simp [recordSource, hnew]
  rw [placings, hrecord]
  exact s.sources.perm_spread_insert target (m, id)

end SymbolMap

/-! ## One entry, one source

The entries of types and the sources that are recorded are the same types, each of them once, and
the output has no more types than those. A type is entered in the map and recorded as a source in
the same step, and only when it has no place. -/

namespace ImportState

/-- No symbol has two entries, no input type is a source twice, the sources are the types that have
places, and the output has no more types than there are sources. -/
structure PlacedOnce (s : ImportState) : Prop where
  keys : s.map.entries.keys.Nodup
  sources : (s.map.placings.map Prod.snd).Nodup
  placings : ∀ {t x}, (t, x) ∈ s.map.placings ↔ s.map.typeOf? x.1 x.2 = some t
  types : s.target.types.length ≤ s.map.placings.length

variable {s s' : ImportState} {ctx : Context} {m : ModuleId}

namespace PlacedOnce

theorem declareOne {p : Pending} (h : s.PlacedOnce) (hs : s.Sound ctx)
    (hfresh : s.map.find? m (.type p.type) = none) : (s.declareOne ctx m p).2.PlacedOnce := by
  have hnone : ∀ t, s.map.typeOf? m p.type ≠ some t := fun t ht ↦ by
    rw [SymbolMap.typeOf?_eq_some, hfresh] at ht
    cases ht
  have hnew : (m, p.type) ∉ s.map.sourcesOf (s.place ctx m p).1 := fun hmem ↦
    hnone _ (hs.sources.mp hmem)
  have hperm : (s.declareOne ctx m p).2.map.placings.Perm
      (((s.place ctx m p).1, (m, p.type)) :: s.map.placings) := by
    rw [map_declareOne]
    exact SymbolMap.perm_placings_recordSource (s := s.map.record _ _ _) hnew
  constructor
  case keys => exact Import.appends_declareOne.distinct h.keys
  case sources =>
    refine (hperm.map Prod.snd).nodup_iff.mpr (List.nodup_cons.mpr ⟨fun hmem ↦ ?_, h.sources⟩)
    obtain ⟨⟨t, x⟩, ht, rfl⟩ := List.mem_map.mp hmem
    exact hnone t (h.placings.mp ht)
  case placings =>
    intro t x
    rw [hperm.mem_iff, List.mem_cons, h.placings, typeOf?_declareOne_iff hfresh, Prod.mk.injEq,
      or_comm, and_comm]
  case types =>
    rw [hperm.length_eq, List.length_cons, target_declareOne]
    have hold := h.types
    rcases s.place_cases ctx m p with hshares | ⟨shell, henters⟩
    · rw [hshares.target]
      omega
    · rw [henters.target, Module.length_types_addType]
      omega

theorem of_samePlaces (h : s.PlacedOnce) (hs : s.Sound ctx) (hs' : s'.Sound ctx)
    (hsame : s.SamePlaces s') (happends : s.map.entries.Appends s'.map.entries) :
    s'.PlacedOnce := by
  have hplacings : s'.map.placings = s.map.placings := by
    rw [SymbolMap.placings, hsame.sources]
    rfl
  constructor
  case keys => exact happends.distinct h.keys
  case sources => exact hplacings ▸ h.sources
  case placings => exact hplacings ▸ h.placings.trans (hsame.typeOf?_iff hs hs').symm
  case types => exact hplacings ▸ hsame.types ▸ h.types

end PlacedOnce

end ImportState

theorem Context.placedOnce_startImport (ctx : Context) : ctx.startImport.PlacedOnce where
  keys := List.nodup_nil
  sources := List.nodup_nil
  placings := ⟨fun h ↦ (by cases h), fun h ↦ by cases h⟩
  types := Nat.le_refl 0

variable {ctx : Context} {s s' : ImportState} {m : ModuleId}

theorem Import.DeclareStep.placedOnce (h : DeclareStep ctx m s s') (hs : s.Sound ctx)
    (hp : s.PlacedOnce) : s'.PlacedOnce := by
  cases h with
  | declare hfresh _ => exact hp.declareOne hs hfresh

theorem Import.Step.placedOnce (h : Step ctx s s') (hs : s.Sound ctx) (hp : s.PlacedOnce) :
    s'.PlacedOnce := by
  rcases h.places with ⟨m, hdeclares⟩ | hsame
  · exact ImportState.Sound.keeps DeclareStep.sound DeclareStep.placedOnce hdeclares.steps hs hp
  · exact hp.of_samePlaces hs (h.sound hs) hsame h.appends

theorem CallStep.placedOnce (h : CallStep ctx s s') (hs : s.Sound ctx) (hp : s.PlacedOnce) :
    s'.PlacedOnce := by
  cases h with
  | step h => exact h.placedOnce hs hp
  | enter hfresh _ => exact hp.declareOne hs hfresh

theorem CallStep.placedOnce_of_reached (h : ReflTransGen (CallStep ctx) ctx.startImport s) :
    s.PlacedOnce :=
  ImportState.Sound.keeps CallStep.sound CallStep.placedOnce h ctx.sound_startImport
    ctx.placedOnce_startImport

/-! ## Once each

Given that nothing is counted twice, being declared once is a matter of having a place. The
descent gives one to a type that is needed, if it ends, and it ends just when the decisions do
that it asks for. -/

private theorem filter_eq_singleton {α β : Type} [DecidableEq β] {f : α → β} {l : List α}
    (h : (l.map f).Nodup) {a : α} (ha : a ∈ l) : l.filter (fun b ↦ f b = f a) = [a] := by
  induction l with
  | nil => cases ha
  | cons b l ih =>
    obtain ⟨hb, hl⟩ := List.nodup_cons.mp h
    rcases List.mem_cons.mp ha with rfl | ha
    · have hrest : l.filter (fun c ↦ f c = f a) = [] := by
        refine List.filter_eq_nil_iff.mpr fun c hc heq ↦ hb ?_
        exact of_decide_eq_true heq ▸ List.mem_map_of_mem hc
      rw [List.filter_cons_of_pos (by simp), hrest]
    · have hne : f b ≠ f a := fun heq ↦ hb (heq ▸ List.mem_map_of_mem ha)
      rw [List.filter_cons_of_neg (by simpa using hne), ih hl ha]

/-- How many types the modules of a link have together. -/
def Context.typeCount (ctx : Context) : Nat :=
  (ctx.registry.inputs.flatMap fun i ↦ i.module.types).length

theorem Context.length_allTypes (ctx : Context) : ctx.allTypes.length = ctx.typeCount := by
  have hinputs : (ctx.registry.inputs.flatMap fun i ↦ i.module.types)
      = ctx.registry.ids.flatMap fun m ↦ (ctx.module m).types := by
    rw [← ctx.registry.map_input_ids, List.flatMap_map]
    rfl
  have horder := ctx.registry.perm_importOrder.flatMap_right fun m ↦ (ctx.module m).types
  rw [typeCount, hinputs, ← horder.length_eq, allTypes, pairs, List.length_flatMap,
    List.length_flatMap]
  simp [Module.typeIds]

namespace ImportState

/-- An input type became a type of the output, once: it has one entry, and it stands once among the
sources of all types, with those of its own. -/
structure BecameOnce (s : ImportState) (x : ModuleId × TypeId) (t : TypeId) : Prop where
  entry : s.map.entries.entries.filter (fun e ↦ e.1 = (x.1, .type x.2))
    = [((x.1, .type x.2), .type (.definition t))]
  placing : s.map.placings.filter (fun e ↦ e.2 = x) = [(t, x)]
  source : x ∈ s.map.sourcesOf t

/-- The types that are decided about when a type is needed: those that are entered on the way, and
those that are listed in them. -/
def askedFor (s : ImportState) (ctx : Context) (m : ModuleId) (id : TypeId) : List TypeId :=
  let s' := (ensureChain ctx m ((ctx.module m).declaringChain id) s).2
  s.enteredSince s' ctx m ++ s.listedSince s' ctx m

/-- The types that are decided about when a type is declared: those that are listed in what is
entered. -/
def askedInside (s : ImportState) (ctx : Context) (m : ModuleId) (p : Pending) : List TypeId :=
  s.listedSince (s.declare ctx m p).2 ctx m

/-- A descent that starts here comes to an end exactly when each decision does that it asks for, and
what has been declared has been declared once. -/
structure DeclaresOnce (s : ImportState) (ctx : Context) : Prop where
  /-- A type that is needed is given its place within three times as many levels as its module has
  types. -/
  needed : ∀ m id, id.index < (ctx.module m).types.length →
    (∀ x ∈ s.askedFor ctx m id, ctx.DecisionEnds m x) → ∃ t s', (∀ levels,
      3 * (ctx.module m).types.length + 1 < levels → ensureWithin ctx m levels id s = some (t, s'))
      ∧ Import.ensureDeclared ctx m id s = .ok t s' ∧ s'.map.typeOf? m id = some t
  needed_endless : ∀ m id x, id.index < (ctx.module m).types.length → x ∈ s.askedFor ctx m id →
    ¬ctx.DecisionEnds m x → (∀ levels, ensureWithin ctx m levels id s = none)
      ∧ Import.ensureDeclared ctx m id s = .error (.endlessDecision (ctx.module m).name) s
  /-- A type with all that is nested in it is declared within twice as many. -/
  nested : ∀ m p levels, p.Within ctx m s → (∀ x ∈ s.askedInside ctx m p, ctx.DecisionEnds m x) →
    2 * (ctx.module m).types.length + 1 < levels →
    declareWithin ctx m levels p s = some (s.declare ctx m p)
  nested_endless : ∀ m p x, p.Within ctx m s → x ∈ s.askedInside ctx m p →
    ¬ctx.DecisionEnds m x → ∀ levels, declareWithin ctx m levels p s = none
  once : ∀ x t, s.map.typeOf? x.1 x.2 = some t → s.BecameOnce x t
  types : s.target.types.length ≤ ctx.typeCount

theorem PlacedOnce.becameOnce (h : s.PlacedOnce) (hs : s.Sound ctx) {x : ModuleId × TypeId}
    {t : TypeId} (ht : s.map.typeOf? x.1 x.2 = some t) : s.BecameOnce x t where
  entry := filter_eq_singleton h.keys
    (Table.mem_entries_of_find? (SymbolMap.typeOf?_eq_some.mp ht))
  placing := filter_eq_singleton h.sources (h.placings.mpr ht)
  source := hs.sources.mpr ht

/-- No source is counted twice, and each is a type of a module. -/
theorem PlacedOnce.types_le (h : s.PlacedOnce) (hs : s.Sound ctx) :
    s.target.types.length ≤ ctx.typeCount := by
  have hsub : s.map.placings.map Prod.snd ⊆ ctx.allTypes := by
    intro x hx
    obtain ⟨⟨t, x⟩, ht, rfl⟩ := List.mem_map.mp hx
    exact Context.mem_allTypes_of_lt (hs.inputs (h.placings.mp ht))
  have hlen := (List.subperm_of_subset h.sources hsub).length_le
  rw [List.length_map, ctx.length_allTypes] at hlen
  exact h.types.trans hlen

section Descents

variable (hctx : ctx.registry.Accepted) (hs : s.Sound ctx) {m : ModuleId}
include hctx hs

theorem ensureWithin_of_decided {id : TypeId} (hid : id.index < (ctx.module m).types.length)
    (h : ∀ x ∈ s.askedFor ctx m id, ctx.DecisionEnds m x) :
    ∃ t s', (∀ levels, 3 * (ctx.module m).types.length + 1 < levels →
      ensureWithin ctx m levels id s = some (t, s'))
      ∧ Import.ensureDeclared ctx m id s = .ok t s' ∧ s'.map.typeOf? m id = some t := by
  have hdeclared : Import.ensureDeclared ctx m id s = .ok
      (ensureChain ctx m ((ctx.module m).declaringChain id) s).1
      (ensureChain ctx m ((ctx.module m).declaringChain id) s).2 := by
    rw [Import.ensureDeclared_eq]
    exact Import.deciding_eq_ok_iff.mpr ⟨rfl, fun x hx ↦ Context.decides_iff.mpr (h x hx)⟩
  refine ⟨_, _, (Import.ensureWithin_iff hctx hs hid).2 hdeclared, hdeclared, ?_⟩
  exact ((Import.reaches_ensureDeclared hctx hs hid).of_ok hdeclared).2

theorem ensureWithin_endless {id x : TypeId} (hid : id.index < (ctx.module m).types.length)
    (hx : x ∈ s.askedFor ctx m id) (hnot : ¬ctx.DecisionEnds m x) :
    (∀ levels, ensureWithin ctx m levels id s = none)
      ∧ Import.ensureDeclared ctx m id s = .error (.endlessDecision (ctx.module m).name) s := by
  have hnot : ctx.decides m x = false := by
    rw [← Bool.not_eq_true]
    exact mt Context.decides_iff.mp hnot
  have herror : Import.ensureDeclared ctx m id s
      = .error (.endlessDecision (ctx.module m).name) s := by
    rw [Import.ensureDeclared_eq]
    exact Import.deciding_eq_error hx hnot
  refine ⟨fun levels ↦ ?_, herror⟩
  cases h : ensureWithin ctx m levels id s with
  | none => rfl
  | some r =>
    rw [(Import.ensureWithin_iff hctx hs hid).1.mp ⟨levels, h⟩] at herror
    cases herror

theorem declareWithin_of_decided {p : Pending} {levels : Nat} (hin : p.Within ctx m s)
    (h : ∀ x ∈ s.askedInside ctx m p, ctx.DecisionEnds m x)
    (hlevels : 2 * (ctx.module m).types.length + 1 < levels) :
    declareWithin ctx m levels p s = some (s.declare ctx m p) :=
  Import.declareWithin_eq hctx hs hin
    (listsDecided_iff.mpr fun x hx ↦ Context.decides_iff.mpr (h x hx)) hlevels

theorem declareWithin_endless {p : Pending} {x : TypeId} (hin : p.Within ctx m s)
    (hx : x ∈ s.askedInside ctx m p) (hnot : ¬ctx.DecisionEnds m x) (levels : Nat) :
    declareWithin ctx m levels p s = none := by
  cases h : declareWithin ctx m levels p s with
  | none => rfl
  | some r =>
    obtain ⟨rfl, hlists⟩ := Import.declareWithin_sound hctx hs hin h
    exact absurd (Context.decides_iff.mp (listsDecided_iff.mp hlists x hx)) hnot

end Descents

end ImportState

/-! ## When declaring ends

Only the search for contracts can keep a decision from ending. The primary is never asked about,
and neither is a module that the policy leaves alone, so a knot in the nested lists of such a
module does no harm. -/

/-- From the start, all types of a module can be had exactly when each can be decided about. -/
theorem Context.declaresAll_iff (hctx : ctx.registry.Accepted) (m : ModuleId) :
    (∀ id, id.index < (ctx.module m).types.length →
        ∃ levels r, ensureWithin ctx m levels id ctx.startImport = some r)
      ↔ ∀ id, id.index < (ctx.module m).types.length → ctx.DecisionEnds m id := by
  have hs := ctx.sound_startImport
  constructor
  · intro h id hid
    obtain ⟨levels, r, hr⟩ := h id hid
    by_contra hnot
    -- a type that has a place in the end was entered, and so it was asked about
    have hplace := (ImportState.ensureChain_steps hctx hs
      (Module.complete_declaringChain (Context.fault?_module hctx m) id)
      (ImportState.declaringChain_lt hctx hid)).2 id (by
        obtain ⟨rest, hrest⟩ := Chain.follow_eq_cons
          (fun t ↦ ((ctx.module m).typeDef t).declaring) (ctx.module m).types.length id
        simp [Module.declaringChain, hrest])
    have hentered : id ∈ ctx.startImport.askedFor ctx m id :=
      List.mem_append_left _ (ImportState.mem_enteredSince.mpr
        ⟨hid, ImportState.contains_of_typeOf? hplace, rfl⟩)
    rw [(ImportState.ensureWithin_endless hctx hs hid hentered hnot).1 levels] at hr
    cases hr
  · intro h id hid
    have hasked : ∀ x ∈ ctx.startImport.askedFor ctx m id, ctx.DecisionEnds m x := by
      intro x hx
      refine h x ?_
      rcases List.mem_append.mp hx with hx | hx
      · exact (ImportState.mem_enteredSince.mp hx).1
      · obtain ⟨o, -, hx⟩ := List.mem_flatMap.mp hx
        exact ImportState.nested_lt hctx hx
    obtain ⟨t, s', hends, -⟩ := ImportState.ensureWithin_of_decided hctx hs hid hasked
    exact ⟨_, _, hends _ (Nat.lt_succ_self _)⟩

/-- Nothing keeps a decision from ending but a search for contracts among public types that are
found again inside themselves. -/
theorem Context.decisionEnds_of_nestingEnds (hctx : ctx.registry.Accepted) {m : ModuleId}
    (h : ctx.internalizes m = false ∨ ctx.policy.excludeSerializable = false
      ∨ (ctx.module m).NestingEnds)
    {id : TypeId} (hid : id.index < (ctx.module m).types.length) : ctx.DecisionEnds m id := by
  have hclosed := Module.closed_of_accepted (Context.fault?_module hctx m)
  refine ⟨(ctx.module m).types.length, ?_⟩
  unfold internalizesWithin Policy.hidesWithin
  rcases h with hselected | hexclude | hends
  · rw [hselected, Policy.hidesName_of_not_selected]
    exact ⟨false, rfl⟩
  · rw [hexclude]
    split
    · exact ⟨true, rfl⟩
    · exact ⟨false, rfl⟩
  · rw [Module.exemptWithin_of_nestingEnds hclosed hends (Module.mem_typeIds.mpr hid)
      (Nat.le_refl _)]
    split
    · split
      · exact ⟨_, rfl⟩
      · exact ⟨true, rfl⟩
    · exact ⟨false, rfl⟩

/-- From every state that the steps of an import lead to, declaring comes to an end exactly when
each decision about hiding does that it asks for, and then it declares no type twice, whatever the
nested lists are. So all types can be had from the start exactly when each can be decided about; no
decision is endless in a module that is not selected, under a policy that does not keep contracts,
or where no public type is found again inside itself. After a whole import every type of every
module has been declared once, and the output has at most as many types as the modules have
together. -/
theorem declaresOnce_iff_decided {inputs : List Input}
    (hinputs : Registry.ofInputs inputs = .ok ctx.registry) :
    (∀ s, ReflTransGen (CallStep ctx) ctx.startImport s → s.DeclaresOnce ctx)
      ∧ (∀ m, (∀ id, id.index < (ctx.module m).types.length →
          ∃ levels r, ensureWithin ctx m levels id ctx.startImport = some r)
        ↔ ∀ id, id.index < (ctx.module m).types.length → ctx.DecisionEnds m id)
      ∧ (∀ m, ctx.internalizes m = false ∨ ctx.policy.excludeSerializable = false
          ∨ (ctx.module m).NestingEnds →
        ∀ id, id.index < (ctx.module m).types.length → ctx.DecisionEnds m id)
      ∧ ∀ s, Import.run ctx ctx.startImport = .ok () s →
        s.DeclaresOnce ctx ∧ ∀ x ∈ ctx.allTypes, ∃ t, s.BecameOnce x t := by
  have hctx := (Registry.accepted_of_ofInputs hinputs).1
  have hreached : ∀ s, ReflTransGen (CallStep ctx) ctx.startImport s → s.DeclaresOnce ctx := by
    intro s h
    have hs := CallStep.sound_steps h ctx.sound_startImport
    have honce := CallStep.placedOnce_of_reached h
    exact
      { needed := fun m id hid ↦ ImportState.ensureWithin_of_decided hctx hs hid
        needed_endless := fun m id x hid ↦ ImportState.ensureWithin_endless hctx hs hid
        nested := fun m p levels hin ↦ ImportState.declareWithin_of_decided hctx hs hin
        nested_endless := fun m p x hin hx ↦ ImportState.declareWithin_endless hctx hs hin hx
        once := fun x t ht ↦ honce.becameOnce hs ht
        types := honce.types_le hs }
  refine ⟨hreached, fun m ↦ ctx.declaresAll_iff hctx m,
    fun m h id hid ↦ ctx.decisionEnds_of_nestingEnds hctx h hid, fun s hrun ↦ ?_⟩
  have hsteps := ((Import.reaches_run hctx).of_ok hrun).1
  have hdone := hreached s (ReflTransGen.mono (fun _ _ ↦ .step) _ _ hsteps)
  refine ⟨hdone, fun x hx ↦ ?_⟩
  obtain ⟨hm, hid⟩ := Context.mem_allTypes.mp hx
  obtain ⟨t, ht⟩ := (Import.imported_of_run hctx hrun).filled hm hid
  exact ⟨t, hdone.once x t ht.place⟩

/-! ## Nested lists in a knot -/

/-- A program, and a library whose ring lists itself, and twice the link that lists the ring. The
link lists a bead that belongs to the hook, and the hook's pin, which the ring has a field of, is
listed nowhere. The ring has a contract. -/
def knotted : List Input :=
  [{ isPrimary := true
     module := { name := "App", types := [{ name := "Main", visibility := .public }] } },
   { isPrimary := false
     module :=
      { name := "Lib"
        types := [
          { name := "Ring", visibility := .public, isSerializable := true
            nested := [⟨1⟩, ⟨0⟩, ⟨1⟩], fields := [⟨0⟩] },
          { name := "Link", visibility := .public, nested := [⟨0⟩, ⟨2⟩] },
          { name := "Bead", visibility := .nestedPublic, declaring := some ⟨3⟩ },
          { name := "Hook", visibility := .public },
          { name := "Pin", visibility := .nestedPublic, declaring := some ⟨3⟩ }]
        fields := [
          { name := "pin", access := .private, isStatic := false, fieldType := .definition ⟨4⟩
            declaring := ⟨0⟩ }] } }]

/-- All types are hidden but those with contracts. -/
def knottedLink : Context where
  registry := ⟨knotted⟩
  policy := ⟨true, [], [], [], true⟩
  targetName := "App"

def knottedDone : ImportState :=
  Import.finalState (Import.run knottedLink) knottedLink.startImport

theorem decisionEnds_knotted {x : TypeId}
    (hx : x.index < (knottedLink.module ⟨1⟩).types.length) : knottedLink.DecisionEnds ⟨1⟩ x := by
  have hall : ∀ x ∈ (knottedLink.module ⟨1⟩).typeIds, knottedLink.decides ⟨1⟩ x = true := by
    decide +kernel
  exact Context.decides_iff.mp (hall x (Module.mem_typeIds.mpr hx))

/-- The contract of the ring is found before its list is gone through, and that of the link's in the
ring. The bead is found by way of its hook when it is asked for, and in the link by an import, which
comes to the link through the ring; it is hidden, and the link is not. -/
theorem declaresOnce_knotted : Registry.ofInputs knotted = .ok knottedLink.registry
    ∧ Import.run knottedLink knottedLink.startImport = .ok () knottedDone
    ∧ (∃ t s', ensureWithin knottedLink ⟨1⟩ 17 ⟨2⟩ knottedLink.startImport = some (t, s')
      ∧ s'.map.typeOf? ⟨1⟩ ⟨2⟩ = some t)
    ∧ knottedDone.BecameOnce (⟨1⟩, ⟨2⟩) ⟨3⟩
    ∧ knottedDone.target.qualifiedName ⟨3⟩ = "Ring/Link/Bead"
    ∧ knottedDone.target.types.map TypeDef.visibility
      = [.public, .public, .public, .nestedAssembly, .notPublic, .nestedAssembly]
    ∧ (∃ t, knottedDone.BecameOnce (⟨1⟩, ⟨4⟩) t)
    ∧ knottedDone.target.types.length ≤ 6 := by
  have hinputs : Registry.ofInputs knotted = .ok knottedLink.registry := rfl
  have hrun : Import.run knottedLink knottedLink.startImport = .ok () knottedDone :=
    Import.eq_ok_of_succeeds (by decide +kernel)
  obtain ⟨hreached, hall, -, hafter⟩ := declaresOnce_iff_decided hinputs
  obtain ⟨hdone, honce⟩ := hafter knottedDone hrun
  have hlisted : ∀ x ∈ knottedLink.startImport.askedFor knottedLink ⟨1⟩ ⟨2⟩,
      x.index < (knottedLink.module ⟨1⟩).types.length := by decide +kernel
  obtain ⟨t, s', hdescent, -, ht⟩ := (hreached _ .refl).needed ⟨1⟩ ⟨2⟩ (by decide)
    fun x hx ↦ decisionEnds_knotted (hlisted x hx)
  exact ⟨hinputs, hrun, ⟨t, s', hdescent 17 (by decide), ht⟩,
    hdone.once (⟨1⟩, ⟨2⟩) ⟨3⟩ (by decide +kernel), by decide +kernel, by decide +kernel,
    honce (⟨1⟩, ⟨4⟩) (by decide), hdone.types⟩

/-! ## A ring without a contract -/

/-- A program, and a library whose public ring lists itself. -/
def ringed : List Input :=
  [{ isPrimary := true
     module := { name := "App", types := [{ name := "Main", visibility := .public }] } },
   { isPrimary := false
     module :=
      { name := "Lib", types := [{ name := "Ring", visibility := .public, nested := [⟨0⟩] }] } }]

/-- All types are hidden but those with contracts. -/
def ringedLink : Context where
  registry := ⟨ringed⟩
  policy := ⟨true, [], [], [], true⟩
  targetName := "App"

/-- The inputs are accepted, and still no descent to the ring ends: whether it is hidden depends on
what is listed in it, which is the ring. The import does not end either. -/
theorem not_declares_ringed : Registry.ofInputs ringed = .ok ringedLink.registry
    ∧ (∀ levels, ensureWithin ringedLink ⟨1⟩ levels ⟨0⟩ ringedLink.startImport = none)
    ∧ (∃ s, Import.run ringedLink ringedLink.startImport = .error (.endlessDecision "Lib") s)
    ∧ ¬∀ m id, id.index < (ringedLink.module m).types.length →
      ∃ levels r, ensureWithin ringedLink m levels id ringedLink.startImport = some r := by
  have hinputs : Registry.ofInputs ringed = .ok ringedLink.registry := rfl
  have hctx := (Registry.accepted_of_ofInputs hinputs).1
  have hnot : ¬ringedLink.DecisionEnds ⟨1⟩ ⟨0⟩ := by
    rw [← Context.decides_iff]
    decide
  refine ⟨hinputs, ?_, ?_, fun h ↦ hnot ((ringedLink.declaresAll_iff hctx ⟨1⟩).mp (h ⟨1⟩) ⟨0⟩ ?_)⟩
  · exact (ImportState.ensureWithin_endless hctx ringedLink.sound_startImport (by decide)
      (by decide +kernel) hnot).1
  · have hrefused : (match Import.run ringedLink ringedLink.startImport with
        | .ok _ _ => none
        | .error e _ => some e) = some (.endlessDecision "Lib") := by
      decide +kernel
    cases h : Import.run ringedLink ringedLink.startImport with
    | ok u s => rw [h] at hrefused; cases hrefused
    | error e s =>
      rw [h] at hrefused
      cases hrefused
      exact ⟨s, rfl⟩
  · decide

end ModuleLinker
