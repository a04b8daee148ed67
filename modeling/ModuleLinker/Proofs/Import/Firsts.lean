import ModuleLinker.Proofs.Import.Run
import ModuleLinker.Proofs.Table

/-!
# The first method mapped onto a method of the output

Entries of the map stand in the order in which they were made. So the methods that are mapped onto a
method of the output have an order too, and the first of them is the one that the output's method
was made for: it got its access and its static flag from there, and the module of the first is its
origin.

Entries are only added behind those that there are, so who is first stays first. What is left to
look at is a method that a step adds: nothing was mapped onto it before, since all entries lead into
the output.
-/

namespace ModuleLinker

open Relation (ReflTransGen)

/-! ## The methods mapped onto one

Entries are never overwritten and stand in the order in which they were made. So the methods that
are mapped onto a method of the output can be listed in that order, and the list only gets longer
at its end. -/

namespace SymbolMap

/-- The method of an input that an entry maps onto a method of the output, if it does. -/
def methodOnto? (d : MethodId) : (ModuleId × Symbol) × Counterpart → Option (ModuleId × MethodId)
  | ((m, .method id), .method (.definition target)) => if target = d then some (m, id) else none
  | _ => none

/-- The methods of the inputs that are mapped onto a method of the output, the earliest first. -/
def methodsOnto (s : SymbolMap) (d : MethodId) : List (ModuleId × MethodId) :=
  s.entries.entries.filterMap (methodOnto? d)

theorem methodOnto?_eq_some {d : MethodId} {e : (ModuleId × Symbol) × Counterpart}
    {x : ModuleId × MethodId} : methodOnto? d e = some x
      ↔ e = ((x.1, .method x.2), .method (.definition d)) := by
  obtain ⟨m, id⟩ := x
  constructor
  · intro h
    unfold methodOnto? at h
    split at h
    · split at h
      · next hd =>
        cases h
        rw [hd]
      · cases h
    · cases h
  · rintro rfl
    simp [methodOnto?]

theorem mem_methodsOnto {s : SymbolMap} (h : s.entries.keys.Nodup) {d : MethodId}
    {x : ModuleId × MethodId} :
    x ∈ s.methodsOnto d ↔ s.methodOf? x.1 x.2 = some (.definition d) := by
  rw [methodsOnto, List.mem_filterMap, methodOf?_eq_some]
  constructor
  · rintro ⟨e, he, hx⟩
    rw [methodOnto?_eq_some.mp hx] at he
    exact (Table.find?_eq_some_iff_mem h).mpr he
  · intro hfind
    exact ⟨_, Table.mem_entries_of_find? hfind, methodOnto?_eq_some.mpr rfl⟩

theorem methodsOnto_of_appends {s s' : SymbolMap} (h : s.entries.Appends s'.entries)
    (d : MethodId) : s.methodsOnto d <+: s'.methodsOnto d :=
  h.before.filterMap _

end SymbolMap

namespace ImportState

/-- The first method that is mapped onto a method of the output is one of its origin's, and gave it
its access and its static flag. -/
structure MadeFor (s : ImportState) (ctx : Context) (x : ModuleId × MethodId) (d : MethodId) :
    Prop where
  first : (s.map.methodsOnto d).head? = some x
  origin : s.map.methodOrigin? d = some x.1
  maker : s.Maker ctx x.1 x.2 d

/-- No symbol has two entries, and every method of the output was made for the first method that is
mapped onto it. -/
structure MadeForFirsts (s : ImportState) (ctx : Context) : Prop where
  distinct : s.map.entries.keys.Nodup
  made : ∀ d : MethodId, d.index < s.target.methods.length → ∃ x, s.MadeFor ctx x d

variable {s s' : ImportState} {ctx : Context}

theorem MadeFor.mono {x : ModuleId × MethodId} {d : MethodId} (h : s.MadeFor ctx x d)
    (hg : s.Grows s') (happ : s.map.entries.Appends s'.map.entries)
    (hd : d.index < s.target.methods.length) : s'.MadeFor ctx x d where
  first := by
    obtain ⟨rest, hrest⟩ := SymbolMap.methodsOnto_of_appends happ d
    rw [← hrest, List.head?_append, h.first]
    rfl
  origin := hg.origins h.origin
  maker := h.maker.mono hg hd

theorem Faithful.methodOrigin?_eq_none (h : s.Faithful ctx) (hs : s.Sound ctx) {d : MethodId}
    (hd : s.target.methods.length ≤ d.index) : s.map.methodOrigin? d = none := by
  by_contra hne
  obtain ⟨l, hl⟩ := Option.ne_none_iff_exists'.mp hne
  obtain ⟨id, hmaker⟩ := h.makers hl
  exact Nat.not_lt.mpr hd (hs.methodOf?_lt hmaker.entry)

namespace MadeForFirsts

theorem of_grows (h : s.MadeForFirsts ctx) (hg : s.Grows s')
    (happ : s.map.entries.Appends s'.map.entries)
    (hlen : s'.target.methods.length = s.target.methods.length) : s'.MadeForFirsts ctx where
  distinct := happ.distinct h.distinct
  made d hd := by
    rw [hlen] at hd
    obtain ⟨x, hx⟩ := h.made d hd
    exact ⟨x, hx.mono hg happ hd⟩

theorem methodsOnto_eq_nil (h : s.MadeForFirsts ctx) (hs : s.Sound ctx) {d : MethodId}
    (hd : s.target.methods.length ≤ d.index) : s.map.methodsOnto d = [] := by
  refine List.eq_nil_iff_forall_not_mem.mpr fun x hx ↦ ?_
  have hlt := hs.methodOf?_lt ((SymbolMap.mem_methodsOnto h.distinct).mp hx)
  exact Nat.not_lt.mpr hd hlt

end MadeForFirsts

end ImportState

namespace Import

open ImportState

variable {ctx : Context} {s s' : ImportState} {m : ModuleId}

/-! ## Steps append entries -/

theorem appends_declareOne {p : Pending} :
    s.map.entries.Appends (s.declareOne ctx m p).2.map.entries := by
  rw [map_declareOne]
  exact s.map.entries.appends_insertNew _ _

theorem DeclareStep.appends (h : DeclareStep ctx m s s') :
    s.map.entries.Appends s'.map.entries := by
  cases h with
  | declare _ _ => exact appends_declareOne

theorem DeclareStep.appends_steps (h : ReflTransGen (DeclareStep ctx m) s s') :
    s.map.entries.Appends s'.map.entries := by
  induction h with
  | refl => exact .refl _
  | tail _ hstep ih => exact ih.trans hstep.appends

theorem UseStep.appends (h : UseStep ctx s s') : s.map.entries.Appends s'.map.entries := by
  cases h with
  | sign h =>
    cases h with
    | place h =>
      cases h with
      | declare h => exact DeclareStep.appends_steps h.steps
      | refer _ _ | intern _ => exact .refl _
    | resolve _ _ _ _ _ => exact s.map.entries.appends_insertNew _ _
  | intern _ => exact .refl _
  | resolve _ _ _ _ => exact s.map.entries.appends_insertNew _ _

theorem FillStep.appends (h : FillStep ctx m s s') : s.map.entries.Appends s'.map.entries := by
  cases h with
  | sign h => exact (UseStep.sign h).appends
  | hierarchy _ _ _ => exact .refl _
  | shareField _ _ _ | addField _ _ _ _ | shareMethod _ _ _ _ _ _ | addMethod _ _ _ _ _ _ =>
    exact s.map.entries.appends_insertNew _ _

theorem Step.appends (h : Step ctx s s') : s.map.entries.Appends s'.map.entries := by
  cases h with
  | shape h =>
    cases h with
    | fill h => exact h.appends
    | visit _ _ => exact .refl _
  | copy h =>
    cases h with
    | use h => exact h.appends
    | visit _ _ | setBody _ _ _ _ => exact .refl _

/-! ## Firsts stay firsts

A method of the output is made in the same step that maps a first method onto it. Later steps may
map others onto it, which come behind. -/

theorem UseStep.madeForFirsts (h : UseStep ctx s s') (hm : s.MadeForFirsts ctx) :
    s'.MadeForFirsts ctx :=
  hm.of_grows h.grows h.appends (congrArg List.length h.sameMembers.methods)

theorem FillStep.madeForFirsts (h : FillStep ctx m s s') (hs : s.Sound ctx)
    (hf : s.Faithful ctx) (hm : s.MadeForFirsts ctx) : s'.MadeForFirsts ctx := by
  have hg := h.grows
  have happ := h.appends
  cases h with
  | sign h => exact (UseStep.sign h).madeForFirsts hm
  | hierarchy _ _ _ | shareField _ _ _ | addField _ _ _ _ | shareMethod _ _ _ _ _ _ =>
    exact hm.of_grows hg happ rfl
  | @addMethod id owner t params ret hfresh _ _ _ _ _ =>
    let new : MethodId := ⟨s.target.methods.length⟩
    refine ⟨happ.distinct hm.distinct, fun d hd ↦ ?_⟩
    simp only [Module.methods_addMethod, List.length_append, List.length_singleton] at hd
    rcases Nat.lt_succ_iff_lt_or_eq.mp hd with hlt | heq
    · obtain ⟨x, hx⟩ := hm.made d hlt
      exact ⟨x, hx.mono hg happ hlt⟩
    · obtain rfl : d = new := congrArg MethodId.mk heq
      refine ⟨(m, id), ?_, ?_, SymbolMap.methodOf?_eq_some.mpr ?_, ?_, ?_⟩
      · -- nothing was mapped onto the new method, and its entry is the one that is added
        have hnil := hm.methodsOnto_eq_nil hs (Nat.le_refl new.index)
        have hentries : ((s.map.recordMethodOrigin new m).record m (.method id)
            (.method (.definition new))).entries.entries
              = s.map.entries.entries ++ [((m, .method id), .method (.definition new))] :=
          congrArg Table.entries (Table.insertNew_of_find?_eq_none hfresh _)
        rw [SymbolMap.methodsOnto, hentries, List.filterMap_append]
        change (s.map.methodsOnto new ++ _).head? = _
        rw [hnil]
        simp [SymbolMap.methodOnto?]
      · have horigin := s.map.methodOrigin?_recordMethodOrigin new new m
        rw [if_pos rfl] at horigin
        rwa [hf.methodOrigin?_eq_none hs (Nat.le_refl new.index)] at horigin
      · exact SymbolMap.find?_record_self (s := s.map.recordMethodOrigin _ _) hfresh _
      · rw [Module.method_addMethod, if_pos rfl]
      · rw [Module.method_addMethod, if_pos rfl]

theorem Step.madeForFirsts (h : Step ctx s s') (hs : s.Sound ctx) (hf : s.Faithful ctx)
    (hm : s.MadeForFirsts ctx) : s'.MadeForFirsts ctx := by
  cases h with
  | shape h =>
    cases h with
    | fill h => exact h.madeForFirsts hs hf hm
    | visit _ _ => exact hm.of_grows (.of_eq rfl rfl) (.refl _) rfl
  | copy h =>
    have hg := h.grows
    cases h with
    | use h => exact h.madeForFirsts hm
    | visit _ _ => exact hm.of_grows hg (.refl _) rfl
    | setBody _ _ _ _ => exact hm.of_grows hg (.refl _) (by simp)

theorem Step.madeForFirsts_steps (h : ReflTransGen (Step ctx) s s') (hs : s.Sound ctx)
    (hf : s.Faithful ctx) (hm : s.MadeForFirsts ctx) : s'.MadeForFirsts ctx := by
  induction h with
  | refl => exact hm
  | tail hsteps hstep ih =>
    obtain ⟨hs', hf'⟩ := Step.invariants hsteps hs hf
    exact hstep.madeForFirsts hs' hf' ih

/-- After an import every method of the output was made for the first method mapped onto it. -/
theorem madeForFirsts_of_run (hctx : ctx.registry.Accepted)
    (h : run ctx ctx.startImport = .ok () s) : s.MadeForFirsts ctx :=
  Step.madeForFirsts_steps ((reaches_run hctx).of_ok h).1 ctx.sound_startImport
    ctx.faithful_startImport ⟨List.nodup_nil, fun _ hd ↦ by cases hd⟩

end Import

end ModuleLinker
