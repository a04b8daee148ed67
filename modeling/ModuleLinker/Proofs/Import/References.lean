import ModuleLinker.Proofs.Forwarding
import ModuleLinker.Proofs.Image.Exports
import ModuleLinker.Proofs.Import.Declare

/-!
# References lead where their names say

A reference that is not nested in another is resolved by its qualified name alone, in the module
that its scope names, and never by what the output happens to hold under that name. What the
reference became is entered in the map once, so this stays true for the rest of the import.

The references of a scope chain are imported from the outermost inwards. A chain repeats no
reference, and importing the outer ones enters no reference outside their chain; that is why the
inner reference is still without an entry when its own is made.
-/

namespace ModuleLinker

open Relation (ReflTransGen)

/-! ## Names of references -/

theorem Module.typeRefName_of_root {m : Module} {id : TypeRefId}
    (h : (m.typeRef id).scope.outer? = none) : m.typeRefName id = (m.typeRef id).qualified := by
  have hchain : m.scopeChain id = [id] := by
    unfold scopeChain
    cases m.typeRefs.length with
    | zero => rfl
    | succ n => simp [Chain.follow, h]
  rw [typeRefName, hchain]
  rfl

theorem Target.Refers.has {t : Target} {assembly nspace name : String}
    {sig : TypeSig} (h : t.Refers assembly nspace name sig) : ∀ x ∈ sig.ids, t.Has x := by
  obtain ⟨r, a, rfl, hr, -⟩ := h
  intro x hx
  rw [List.mem_singleton.mp hx]
  exact hr

theorem Scope.outer?_eq_some {s : Scope} {o : TypeRefId} : s.outer? = some o ↔ s = .nested o := by
  cases s <;> simp [outer?]

theorem Target.covers_of_outer? {t : Target} {ctx : Context} {m : ModuleId} {r : TypeRef}
    {o : TypeRefId} (h : r.scope.outer? = some o) : t.Covers ctx m r := by
  intro a hscope
  rw [hscope] at h
  cases h

/-! ## Ids in references of accepted modules -/

namespace Module

variable {m : Module} {id : TypeRefId}

theorem scope_assembly_lt (h : m.fault? = none) (hid : id.index < m.typeRefs.length)
    {a : AssemblyRefId} (hscope : (m.typeRef id).scope = .assembly a) :
    a.index < m.assemblyRefs.length :=
  (closed_of_accepted h).typeRefs _ (typeRef_mem hid) (.assemblyRef, a.index)
    (by simp [TypeRef.ids, hscope])

theorem scope_outer_lt (h : m.fault? = none) (hid : id.index < m.typeRefs.length)
    {o : TypeRefId} (hscope : (m.typeRef id).scope = .nested o) :
    o.index < m.typeRefs.length :=
  (closed_of_accepted h).typeRefs _ (typeRef_mem hid) (.typeRef, o.index)
    (by simp [TypeRef.ids, hscope])

end Module

/-! ## Nested types of several input types

Several input types may share a place, and a nested name is looked for in all of them, in the
order of the sources. The first one to list a type of that name answers. -/

namespace Context

variable {ctx : Context}

theorem exists_of_nestedAmong?_eq_some {sources : List (ModuleId × TypeId)} {name : String}
    {l : ModuleId} {n : TypeId} (h : ctx.nestedAmong? sources name = some (l, n)) :
    ∃ o, (l, o) ∈ sources ∧ n ∈ ((ctx.module l).typeDef o).nested
      ∧ ((ctx.module l).typeDef n).name = name := by
  obtain ⟨⟨l', o⟩, hmem, hnested⟩ := List.exists_of_findSome?_eq_some h
  obtain ⟨n', hn, heq⟩ := Option.map_eq_some_iff.mp hnested
  cases heq
  exact ⟨o, hmem, List.mem_of_find?_eq_some hn, by simpa using List.find?_some hn⟩

theorem nestedAmong?_of_prefix {known sources : List (ModuleId × TypeId)} {name : String}
    {found : ModuleId × TypeId} (hpre : known <+: sources)
    (h : ctx.nestedAmong? known name = some found) :
    ctx.nestedAmong? sources name = some found := by
  obtain ⟨rest, rfl⟩ := hpre
  rw [nestedAmong?, List.findSome?_append, ← nestedAmong?, h]
  rfl

theorem exists_nestedAmong?_eq_some {sources : List (ModuleId × TypeId)} {l : ModuleId}
    {o n : TypeId} (ho : (l, o) ∈ sources) (hn : n ∈ ((ctx.module l).typeDef o).nested) :
    ∃ found, ctx.nestedAmong? sources ((ctx.module l).typeDef n).name = some found := by
  refine Option.isSome_iff_exists.mp (List.findSome?_isSome_iff.mpr ⟨(l, o), ho, ?_⟩)
  rw [Option.isSome_map, List.find?_isSome]
  exact ⟨n, hn, by simp⟩

theorem nested_lt_of_nestedAmong? (hctx : ctx.registry.Accepted)
    {sources : List (ModuleId × TypeId)} {name : String} {l : ModuleId} {n : TypeId}
    (h : ctx.nestedAmong? sources name = some (l, n)) :
    n.index < (ctx.module l).types.length := by
  obtain ⟨o, -, hn, -⟩ := exists_of_nestedAmong?_eq_some h
  exact ImportState.nested_lt hctx hn

end Context

namespace ImportState

variable {s : ImportState} {ctx : Context}

theorem Sound.has_place (hs : s.Sound ctx) {m : ModuleId} {id t : TypeId}
    (ht : s.map.typeOf? m id = some t) :
    ∀ x ∈ (TypeSig.definition t).ids, s.target.Has x := by
  intro x hx
  rw [List.mem_singleton.mp hx]
  exact hs.typeOf?_lt ht

theorem Answers.has (hs : s.Sound ctx) {l : ModuleId} {r : TypeRef} {sig : TypeSig}
    (h : s.Answers ctx l r sig) : ∀ x ∈ sig.ids, s.target.Has x := by
  cases h with
  | own _ ht => exact hs.has_place ht
  | forwarded _ _ ht => exact hs.has_place ht
  | outside _ _ _ href => exact href.has

end ImportState
namespace Import

variable {ctx : Context} {s s' : ImportState} {m : ModuleId}

theorem SignStep.grows_steps (h : ReflTransGen (SignStep ctx) s s') : s.Grows s' :=
  .of_steps (fun _ _ ↦ SignStep.grows) h

theorem SignStep.sound_steps (h : ReflTransGen (SignStep ctx) s s') (hs : s.Sound ctx) :
    s'.Sound ctx :=
  .of_steps SignStep.sound h hs

theorem PlaceStep.find?_typeRef (h : PlaceStep ctx s s') (l : ModuleId) (r : TypeRefId) :
    s'.map.find? l (.typeRef r) = s.map.find? l (.typeRef r) := by
  cases h with
  | declare h => exact DeclareStep.find?_eq_steps h.steps l (by simp)
  | refer _ _ => rfl
  | intern _ => rfl

theorem PlaceStep.find?_typeRef_steps (h : ReflTransGen (PlaceStep ctx) s s') (l : ModuleId)
    (r : TypeRefId) : s'.map.find? l (.typeRef r) = s.map.find? l (.typeRef r) := by
  induction h with
  | refl => rfl
  | tail _ hstep ih => exact (hstep.find?_typeRef l r).trans ih

/-! ## Entering references -/

theorem reaches_record {id : TypeRefId} {sig : TypeSig}
    (hfresh : s.map.find? m (.typeRef id) = none) (hhas : ∀ x ∈ sig.ids, s.target.Has x)
    (hmeans : s.Resolves ctx m ((ctx.module m).typeRef id) sig)
    (hfinds : s.FindsNested ctx m ((ctx.module m).typeRef id) sig)
    (hcovers : s.target.Covers ctx m ((ctx.module m).typeRef id)) :
    Reaches (SignStep ctx) s (modifyMap fun map ↦ map.record m (.typeRef id) (.type sig))
      fun _ s' ↦ s'.map.typeRefOf? m id = some sig
        ∧ ∀ r, r ≠ id → s'.map.find? m (.typeRef r) = s.map.find? m (.typeRef r) := by
  refine .modifyMap (.single (.resolve hfresh hhas hmeans hfinds hcovers)) ⟨?_, fun r hr ↦ ?_⟩
  · exact SymbolMap.typeRefOf?_eq_some.mpr (SymbolMap.find?_record_self hfresh _)
  · exact SymbolMap.find?_record_of_ne (fun heq ↦ hr (by cases heq; rfl)) _

/-! ## References to other modules -/

/-- A reference to a module leads into the link or to an entry of the output, and only then is there
a step. -/
theorem reaches_resolveAssembly {T : ImportState → ImportState → Prop} {id : AssemblyRefId}
    (hT : ctx.merged? ((ctx.module m).assemblyRef id).name = none →
      T s { s with target := (s.target.referAssembly ((ctx.module m).assemblyRef id)).2 }) :
    Reaches T s (resolveAssembly ctx m id) fun r s' ↦
      match r with
      | .merged l => ctx.merged? ((ctx.module m).assemblyRef id).name = some l
      | .external a => ctx.merged? ((ctx.module m).assemblyRef id).name = none
        ∧ s'.target.Provides ((ctx.module m).assemblyRef id) a := by
  cases hl : ctx.merged? ((ctx.module m).assemblyRef id).name with
  | some l =>
    have hres : s.target.resolveAssembly ctx m id = (.merged l, s.target) := by
      simp only [Target.resolveAssembly, hl]
    refine .updateTarget ?_ ?_
    · rw [hres]
    · rw [hres]
  | none =>
    have hres : s.target.resolveAssembly ctx m id
        = (.external (s.target.referAssembly ((ctx.module m).assemblyRef id)).1,
          (s.target.referAssembly ((ctx.module m).assemblyRef id)).2) := by
      simp only [Target.resolveAssembly, hl]
    refine .updateTarget ?_ ?_
    · rw [hres]
      exact .single (hT hl)
    · rw [hres]
      exact ⟨rfl, s.target.provides_referAssembly _⟩

theorem reaches_referType {assembly : AssemblyRef} {nspace name : String} {a : AssemblyRefId}
    (ha : s.target.Provides assembly a) :
    Reaches (PlaceStep ctx) s (referType a nspace name) fun sig s' ↦
      s'.target.Refers assembly.name nspace name sig ∧ s'.target.Provides assembly a := by
  let r : TypeRef := { scope := .assembly a, nspace, name }
  have hin : ∀ x ∈ r.ids, s.target.Has x := by
    intro x hx
    rw [List.mem_singleton.mp hx]
    exact ha.index_lt
  have ha' := ha.mono (s.target.grows_internTypeRef r)
  refine .bind (.updateTarget (.single (.intern hin)) (Q := fun id s' ↦
    s'.target.Refers assembly.name nspace name (.reference id) ∧ s'.target.Provides assembly a) ?_)
    fun id s' _ h ↦ .pure h
  exact ⟨⟨_, a, rfl, s.target.index_internTypeRef r, s.target.typeRef_internTypeRef r,
    ha'.index_lt, ha'.name⟩, ha'⟩

/-! ## References to top-level types -/

section Accepted

variable (hctx : ctx.registry.Accepted)
include hctx

theorem reaches_importMergedRef (hs : s.Sound ctx) (l : ModuleId) (r : TypeRef) :
    Reaches (PlaceStep ctx) s (importMergedRef ctx m l r) fun sig s' ↦ s'.Answers ctx l r sig := by
  unfold importMergedRef
  dsimp only
  rw [← TypeRef.qualified]
  cases hfind : ctx.findType? l r.qualified with
  | some type =>
    refine .bind (reaches_ensureDeclared hctx hs (Context.findType?_lt hfind))
      fun t s' _ ht ↦ .pure ?_
    exact .own hfind ht
  | none =>
    refine .bind (.ofExcept (Q := fun fin s' ↦ s' = s
      ∧ ctx.followForwarders l r.qualified = .ok fin) fun fin hfin ↦ ⟨rfl, hfin⟩)
      fun fin s' _ h ↦ ?_
    obtain ⟨rfl, hwalk⟩ := h
    have hstands := Context.stands_of_followForwarders hwalk
    cases fin with
    | defined d type =>
      refine .bind (reaches_ensureDeclared hctx hs hstands) fun t s'' _ ht ↦ .pure ?_
      exact .forwarded hfind hwalk ht
    | external f a =>
      obtain ⟨-, e, he, ha⟩ := hstands
      have hlt := Module.exportAssembly?_lt (Context.fault?_module hctx f) he ha
      refine .bind (reaches_resolveAssembly (.refer hlt)) fun res s'' _ hres ↦ ?_
      cases res with
      | merged _ => exact .unknown
      | external a' =>
        obtain ⟨hout, ha'⟩ := hres
        exact (reaches_referType ha').imp fun sig s₃ _ h ↦ .outside hfind hwalk hout h.1
    | unresolved => exact .unknown

theorem reaches_importRootRef (hs : s.Sound ctx) {id : TypeRefId}
    (hid : id.index < (ctx.module m).typeRefs.length)
    (hroot : ((ctx.module m).typeRef id).scope.outer? = none) :
    Reaches (PlaceStep ctx) s (importRootRef ctx m id) fun sig s' ↦
      s'.Resolves ctx m ((ctx.module m).typeRef id) sig ∧ (∀ x ∈ sig.ids, s'.target.Has x)
        ∧ s'.target.Covers ctx m ((ctx.module m).typeRef id) := by
  unfold importRootRef
  dsimp only
  cases hscope : ((ctx.module m).typeRef id).scope with
  | assembly a =>
    have ha := Module.scope_assembly_lt (Context.fault?_module hctx m) hid hscope
    refine .bind (reaches_resolveAssembly (.refer ha)) fun res s₁ hs₁ hres ↦ ?_
    cases res with
    | merged l =>
      refine (reaches_importMergedRef hctx (PlaceStep.sound_steps hs₁ hs) l _).imp
        fun sig s₂ hs₂ hans ↦ ⟨?_, hans.has (PlaceStep.sound_steps (hs₁.trans hs₂) hs), ?_⟩
      · simp only [ImportState.Resolves, hscope, hres]
        exact hans
      · intro a' hscope' hout
        rw [hscope] at hscope'
        cases hscope'
        cases hres.symm.trans hout
    | external e =>
      obtain ⟨hout, he⟩ := hres
      refine (reaches_referType he).imp fun sig s₂ _ h ↦ ⟨?_, h.1.has, fun a' hscope' _ ↦ ?_⟩
      · simp only [ImportState.Resolves, hscope, hout]
        exact h.1
      · rw [hscope] at hscope'
        cases hscope'
        exact ⟨e, h.2⟩
  | «local» =>
    rw [Module.typeRefName_of_root hroot]
    dsimp only
    cases hfind : ctx.findType? m ((ctx.module m).typeRef id).qualified with
    | none => exact .unknown
    | some type =>
      refine .bind (reaches_ensureDeclared hctx hs (Context.findType?_lt hfind))
        fun t s₁ hs₁ ht ↦ .pure ⟨?_, (PlaceStep.sound_steps hs₁ hs).has_place ht, ?_⟩
      · simp only [ImportState.Resolves, hscope]
        exact ⟨type, t, hfind, ht, rfl⟩
      · intro a hscope'
        rw [hscope] at hscope'
        cases hscope'
  | nested outer => simp [hscope, Scope.outer?] at hroot

/-! ## Nested references

A nested reference is looked for among the types that share the place of its outer reference, if
that became a type of the output, and becomes a nested reference otherwise. -/

theorem reaches_findNested (hs : s.Sound ctx) (outer : TypeId) (name : String) :
    Reaches (PlaceStep ctx) s (findNested ctx outer name) fun found s' ↦
      ∀ t ∈ found, (∀ x ∈ (TypeSig.definition t).ids, s'.target.Has x)
        ∧ ∀ l n, ctx.nestedAmong? (s'.map.sourcesOf outer) name = some (l, n) →
          s'.map.typeOf? l n = some t := by
  unfold findNested
  refine .ofMap_bind ?_
  dsimp only
  rw [← Context.nestedAmong?]
  cases hfound : ctx.nestedAmong? (s.map.sourcesOf outer) name with
  | some found =>
    obtain ⟨l, id⟩ := found
    have hlt := Context.nested_lt_of_nestedAmong? hctx hfound
    refine .bind (reaches_ensureDeclared hctx hs hlt) fun t s₁ hs₁ ht ↦ .pure fun t' ht' ↦ ?_
    cases ht'
    refine ⟨(PlaceStep.sound_steps hs₁ hs).has_place ht, fun l' n' hfound' ↦ ?_⟩
    -- sources that came in the meantime stand behind the one that was found
    have hsources := (PlaceStep.grows_steps hs₁).sources outer
    rw [Context.nestedAmong?_of_prefix hsources hfound] at hfound'
    cases hfound'
    exact ht
  | none =>
    refine .run rfl .refl fun t ht ↦ ⟨fun x hx ↦ ?_, fun l n hfound' ↦ ?_⟩
    · rw [List.mem_singleton.mp hx]
      exact Target.lookup?_lt ht
    · rw [hfound] at hfound'
      cases hfound'

theorem reaches_importNestedRef (hs : s.Sound ctx) {id o : TypeRefId} {outer : TypeSig}
    (hscope : ((ctx.module m).typeRef id).scope = .nested o)
    (hmapped : s.map.typeRefOf? m o = some outer) :
    Reaches (PlaceStep ctx) s (importNestedRef ctx m id outer) fun sig s' ↦
      (∀ x ∈ sig.ids, s'.target.Has x)
        ∧ s'.FindsNested ctx m ((ctx.module m).typeRef id) sig := by
  -- only an outer reference that became a type of the output has sources to look through
  have hfinds : ∀ {s' : ImportState} {sig : TypeSig}, ReflTransGen (PlaceStep ctx) s s' →
      (∀ t, outer = .definition t → ∃ t', sig = .definition t'
        ∧ ∀ l n, ctx.nestedAmong? (s'.map.sourcesOf t) ((ctx.module m).typeRef id).name
          = some (l, n) → s'.map.typeOf? l n = some t') →
      s'.FindsNested ctx m ((ctx.module m).typeRef id) sig := by
    intro s' sig hs' h o' ho'
    rw [hscope] at ho'
    cases ho'
    refine ⟨outer, (PlaceStep.grows_steps hs').map.typeRefOf? hmapped, fun t l n ht hfound ↦ ?_⟩
    obtain ⟨t', hsig, hplace⟩ := h t ht
    exact ⟨t', hplace l n hfound, hsig⟩
  have hhas := hs.has (SymbolMap.typeRefOf?_eq_some.mp hmapped)
  unfold importNestedRef
  cases outer with
  | definition type =>
    refine .bind (reaches_findNested hctx hs type _) fun found s₁ hs₁ hfound ↦ ?_
    cases found with
    | some nested =>
      obtain ⟨hin, hplace⟩ := hfound nested rfl
      refine .pure ⟨hin, hfinds hs₁ fun t ht ↦ ⟨nested, rfl, ?_⟩⟩
      cases ht
      exact hplace
    | none => exact .unknown
  | reference outerRef =>
    let r : TypeRef :=
      { (ctx.module m).typeRef id with scope := .nested outerRef }
    refine .bind (.updateTarget (.single (.intern hhas)) (Q := fun i s' ↦
      ∀ x ∈ (TypeSig.reference i).ids, s'.target.Has x) fun x hx ↦ ?_) fun i s₁ hs₁ h ↦
        .pure ⟨h, hfinds hs₁ fun t ht ↦ by cases ht⟩
    rw [List.mem_singleton.mp hx]
    exact s.target.index_internTypeRef r
  | array _ | generic _ _ => exact .unknown

/-! ## Scope chains

The chain is gone through from the outermost reference inwards, so that each finds its outer
reference mapped. The induction is on the chain, with the state of the map as it goes. -/

/-- A scope chain is imported from the outermost reference inwards, and no other reference of the
module is. -/
theorem reaches_importScopeChain (hs : s.Sound ctx) {chain : List TypeRefId}
    (hin : ∀ id ∈ chain.head?, id.index < (ctx.module m).typeRefs.length)
    (hchain : Chain.Complete (fun r ↦ ((ctx.module m).typeRef r).scope.outer?) chain) :
    Reaches (SignStep ctx) s (importScopeChain ctx m chain) fun sig s' ↦
      (∀ id ∈ chain.head?, s'.map.typeRefOf? m id = some sig)
        ∧ ∀ r, r ∉ chain → s'.map.find? m (.typeRef r) = s.map.find? m (.typeRef r) := by
  -- the induction is along the chain, whose last reference is the outermost one
  induction hchain with
  | @last id hlast =>
    rw [importScopeChain]
    refine .ofMap_bind ?_
    cases hold : s.map.typeRefOf? m id with
    | some sig => exact .pure ⟨by simpa using hold, fun _ _ ↦ rfl⟩
    | none =>
      -- looking up the name places types, and that enters no reference
      refine .bind ((reaches_importRootRef hctx hs (hin id rfl) hlast).lift fun _ _ ↦ .place)
        fun sig s₁ hs₁ h ↦ ?_
      obtain ⟨hplaces, hmeans, hhas, hcovers⟩ := h
      have hfresh : s₁.map.find? m (.typeRef id) = none := by
        rw [PlaceStep.find?_typeRef_steps hplaces]
        exact hs.find?_typeRef_eq_none hold
      have hfinds : s₁.FindsNested ctx m ((ctx.module m).typeRef id) sig := fun o ho ↦ by
        simp [ho, Scope.outer?] at hlast
      refine .bind (reaches_record hfresh hhas hmeans hfinds hcovers) fun _ s₂ _ hrec ↦ .pure ?_
      refine ⟨by simpa using hrec.1, fun r hr ↦ ?_⟩
      rw [hrec.2 r (by simpa using hr)]
      exact PlaceStep.find?_typeRef_steps hplaces _ _
  | @link id outer rest hlink hrest ih =>
    rw [importScopeChain]
    refine .ofMap_bind ?_
    cases hold : s.map.typeRefOf? m id with
    | some sig => exact .pure ⟨by simpa using hold, fun _ _ ↦ rfl⟩
    | none =>
      -- the chain repeats nothing, so the outer references leave this one without an entry
      have hnot : id ∉ outer :: rest :=
        (List.nodup_cons.mp (Chain.Complete.link hlink hrest).nodup).1
      have hscope : ((ctx.module m).typeRef id).scope = .nested outer :=
        Scope.outer?_eq_some.mp hlink
      have houterIn : outer.index < (ctx.module m).typeRefs.length :=
        Module.scope_outer_lt (Context.fault?_module hctx m) (hin id rfl) hscope
      dsimp only
      refine .bind (ih fun o ho ↦ by cases ho; exact houterIn) fun outerSig s₁ hs₁ houter ↦ ?_
      have hs₁' := SignStep.sound_steps hs₁ hs
      refine .bind ((reaches_importNestedRef hctx hs₁' hscope (houter.1 outer (by simp))).lift
        fun _ _ ↦ .place) fun sig s₂ hs₂ h ↦ ?_
      obtain ⟨hplaces, hhas', hfinds⟩ := h
      have hfresh : s₂.map.find? m (.typeRef id) = none := by
        rw [PlaceStep.find?_typeRef_steps hplaces, houter.2 id hnot]
        exact hs.find?_typeRef_eq_none hold
      have hmeans : s₂.Resolves ctx m ((ctx.module m).typeRef id) sig := by
        unfold ImportState.Resolves
        rw [hscope]
        trivial
      refine .bind (reaches_record hfresh hhas' hmeans hfinds (Target.covers_of_outer? hlink))
        fun _ s₃ _ hrec ↦ .pure ?_
      refine ⟨by simpa using hrec.1, fun r hr ↦ ?_⟩
      rw [hrec.2 r (fun he ↦ hr (by simp [he])), PlaceStep.find?_typeRef_steps hplaces]
      exact houter.2 r fun hmem ↦ hr (List.mem_cons_of_mem _ hmem)

theorem reaches_importTypeRef (hs : s.Sound ctx) {id : TypeRefId}
    (hid : id.index < (ctx.module m).typeRefs.length) :
    Reaches (SignStep ctx) s (importTypeRef ctx m id) fun sig s' ↦
      s'.map.typeRefOf? m id = some sig := by
  obtain ⟨rest, hrest⟩ := Chain.follow_eq_cons
    (fun r ↦ ((ctx.module m).typeRef r).scope.outer?) (ctx.module m).typeRefs.length id
  have hhead : ((ctx.module m).scopeChain id).head? = some id := by simp [Module.scopeChain, hrest]
  refine (reaches_importScopeChain hctx hs (fun i hi ↦ ?_)
    (Module.complete_scopeChain (Context.fault?_module hctx m) id)).imp fun sig s' _ h ↦ ?_
  · obtain rfl : id = i := Option.some.inj (hhead.symm.trans hi)
    exact hid
  · exact h.1 id hhead

end Accepted

/-! ## Signatures

A signature is carried over part by part. Entries that are made for one part stay there while the
others are carried over, so the map at the end makes of each part what was made of it. -/

mutual

theorem reaches_importSig (hctx : ctx.registry.Accepted) :
    (sig : TypeSig) → {s : ImportState} → s.Sound ctx → (∀ x ∈ sig.ids, (ctx.module m).Has x) →
    Reaches (SignStep ctx) s (importSig ctx m sig) fun r s' ↦ s'.map.remapSig? m sig = some r
  | .definition id, s, hs, hin => by
    rw [importSig]
    have hid : id.index < (ctx.module m).types.length :=
      hin (.type, id.index) (by simp [TypeSig.ids])
    refine .bind ((reaches_ensureDeclared hctx hs hid).lift fun _ _ ↦ .place)
      fun t s' _ ht ↦ .pure ?_
    simp [SymbolMap.remapSig?, ht.2]
  | .reference id, s, hs, hin => by
    rw [importSig]
    exact reaches_importTypeRef hctx hs (hin (.typeRef, id.index) (by simp [TypeSig.ids]))
  | .array element, s, hs, hin => by
    rw [importSig]
    refine .bind (reaches_importSig hctx element hs hin) fun e s' _ he ↦ .pure ?_
    simp [SymbolMap.remapSig?, he]
  | .generic base args, s, hs, hin => by
    rw [importSig]
    refine .bind (reaches_importSig hctx base hs fun x hx ↦ hin x (List.mem_append_left _ hx))
      fun b s₁ hs₁ hb ↦ ?_
    refine .bind (reaches_importSigs hctx args (SignStep.sound_steps hs₁ hs)
      fun x hx ↦ hin x (List.mem_append_right _ hx)) fun as s₂ hs₂ has ↦ .pure ?_
    have hb' := (SignStep.grows_steps hs₂).map.remapSig? base hb
    simp [SymbolMap.remapSig?, hb', has]

theorem reaches_importSigs (hctx : ctx.registry.Accepted) : (sigs : List TypeSig) →
    {s : ImportState} → s.Sound ctx →
    (∀ x ∈ TypeSig.idsOf sigs, (ctx.module m).Has x) →
    Reaches (SignStep ctx) s (importSigs ctx m sigs) fun rs s' ↦
      s'.map.remapSigs? m sigs = some rs
  | [], s, _, _ => by
    rw [importSigs]
    exact .pure (by simp [SymbolMap.remapSigs?])
  | sig :: rest, s, hs, hin => by
    rw [importSigs]
    refine .bind (reaches_importSig hctx sig hs fun x hx ↦ hin x (List.mem_append_left _ hx))
      fun r s₁ hs₁ hr ↦ ?_
    refine .bind (reaches_importSigs hctx rest (SignStep.sound_steps hs₁ hs)
      fun x hx ↦ hin x (List.mem_append_right _ hx)) fun rs s₂ hs₂ hrs ↦ .pure ?_
    have hr' := (SignStep.grows_steps hs₂).map.remapSig? sig hr
    simp [SymbolMap.remapSigs?, hr', hrs]

end

section Accepted

variable (hctx : ctx.registry.Accepted)
include hctx

theorem reaches_importSig? (hs : s.Sound ctx) (sig : Option TypeSig)
    (hin : ∀ x ∈ sig.toList.flatMap TypeSig.ids, (ctx.module m).Has x) :
    Reaches (SignStep ctx) s (importSig? ctx m sig) fun r s' ↦
      s'.map.remapOption? m sig = some r := by
  unfold importSig?
  cases sig with
  | none => exact .pure rfl
  | some sig =>
    refine .bind (reaches_importSig hctx sig hs (by simpa using hin)) fun r s' _ hr ↦ .pure ?_
    simp [SymbolMap.remapOption?, hr]

theorem reaches_importSignature {α : Type} {K : List TypeSig → Option TypeSig → Import α}
    {T : ImportState → ImportState → Prop} {Q : α → ImportState → Prop}
    (hT : ∀ s s', SignStep ctx s s' → T s s') (hs : s.Sound ctx) {params : List TypeSig}
    {ret : Option TypeSig} (hin : ∀ x ∈ signatureIds params ret, (ctx.module m).Has x)
    (hK : ∀ ps rt s', ReflTransGen (SignStep ctx) s s' → s'.map.remapSigs? m params = some ps →
      s'.map.remapOption? m ret = some rt → Reaches T s' (K ps rt) Q) :
    Reaches T s (do K (← importSigs ctx m params) (← importSig? ctx m ret)) Q := by
  rw [signatureIds, List.flatMap_append] at hin
  have hparams : ∀ x ∈ TypeSig.idsOf params, (ctx.module m).Has x := by
    rw [TypeSig.idsOf_eq_flatMap]
    exact fun x hx ↦ hin x (List.mem_append_left _ hx)
  refine .bind ((reaches_importSigs hctx params hs hparams).lift hT) fun ps s₁ _ h ↦ ?_
  obtain ⟨hs₁, hps⟩ := h
  refine .bind ((reaches_importSig? hctx (SignStep.sound_steps hs₁ hs) ret fun x hx ↦
    hin x (List.mem_append_right _ hx)).lift hT) fun rt s₂ _ h ↦ ?_
  obtain ⟨hs₂, hrt⟩ := h
  exact hK ps rt s₂ (hs₁.trans hs₂) ((SignStep.grows_steps hs₂).map.remapSigs? _ hps) hrt

end Accepted

end Import

end ModuleLinker
