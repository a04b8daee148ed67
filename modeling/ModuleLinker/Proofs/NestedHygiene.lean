import ModuleLinker.Proofs.Import.Placement
import ModuleLinker.Proofs.ReferenceHygiene

/-!
# Nested references

A nested reference names a type inside the type that its outer reference means. It is looked for in
the output: of the input types that share the place of the outer type, the first one that lists a
type of the name answers, in the order in which they came to the place. That need not be the type
that the outer reference means. If two of them list the name and the types listed have places of
their own, as they do when one is hidden, the reference leads to the type of another module.

So a nested reference means what it did exactly when the type that answers shares the place of the
one that was meant. All that an import has to keep for this is that the outer reference is mapped
before the inner one, that what is listed in a type has a place when the type has one, and who
answered.
-/

namespace ModuleLinker

open Relation (ReflTransGen)

/-! ## What references denote

What a reference denotes is said by the inputs alone: a nested one denotes the type that is
listed under its name in what its outer reference denotes. What it leads to is looked up in
the output. -/

/-- The input type that a reference denotes: for a reference that is not nested in another, the one
that the module it asks defines, or the one at the end of its forwarders; for a nested reference, a
type of its name that is listed in what its outer reference denotes. -/
inductive Context.Denotes (ctx : Context) (m : ModuleId) : TypeRefId → ModuleId → TypeId → Prop
  | own {tr : TypeRefId} {l : ModuleId} {type : TypeId}
      (hasks : ctx.Asks m ((ctx.module m).typeRef tr).scope l)
      (hfind : ctx.findType? l ((ctx.module m).typeRefName tr) = some type) :
      Denotes ctx m tr l type
  | forwarded {tr : TypeRefId} {l d : ModuleId} {type : TypeId}
      (hasks : ctx.Asks m ((ctx.module m).typeRef tr).scope l)
      (hno : ctx.findType? l ((ctx.module m).typeRefName tr) = none)
      (hwalk : ctx.followForwarders l ((ctx.module m).typeRefName tr) = .ok (.defined d type)) :
      Denotes ctx m tr d type
  | nested {tr outer : TypeRefId} {d : ModuleId} {o n : TypeId}
      (hscope : ((ctx.module m).typeRef tr).scope = .nested outer)
      (houter : Denotes ctx m outer d o) (hlisted : n ∈ ((ctx.module d).typeDef o).nested)
      (hname : ((ctx.module d).typeDef n).name = ((ctx.module m).typeRef tr).name) :
      Denotes ctx m tr d n

theorem Context.Denotes.nested_inv {ctx : Context} {m d : ModuleId} {tr outer : TypeRefId}
    {n : TypeId} (h : ctx.Denotes m tr d n)
    (hscope : ((ctx.module m).typeRef tr).scope = .nested outer) :
    ∃ o, ctx.Denotes m outer d o ∧ n ∈ ((ctx.module d).typeDef o).nested
      ∧ ((ctx.module d).typeDef n).name = ((ctx.module m).typeRef tr).name := by
  cases h with
  | own hasks _ | forwarded hasks _ _ =>
    rw [hscope] at hasks
    cases hasks
  | @nested _ outer' _ o _ hscope' houter hlisted hname =>
    rw [hscope] at hscope'
    cases hscope'
    exact ⟨o, houter, hlisted, hname⟩

namespace ImportState

/-- A reference leads to the places of all types that it denotes. -/
def Means (s : ImportState) (ctx : Context) (m : ModuleId) (tr : TypeRefId) : Prop :=
  ∀ d type, ctx.Denotes m tr d type →
    ∃ t, s.map.typeOf? d type = some t ∧ s.map.typeRefOf? m tr = some (.definition t)

/-- The first type to answer for a nested reference, in the place that its outer reference means,
shares its place with the type that is denoted. -/
def Uncaptured (s : ImportState) (ctx : Context) (m : ModuleId) (tr : TypeRefId) : Prop :=
  ∀ outer d o n, ((ctx.module m).typeRef tr).scope = .nested outer → ctx.Denotes m outer d o →
    n ∈ ((ctx.module d).typeDef o).nested →
    ((ctx.module d).typeDef n).name = ((ctx.module m).typeRef tr).name →
    ∃ t l a, s.map.typeOf? d o = some t
      ∧ ctx.nestedAmong? (s.map.sourcesOf t) ((ctx.module m).typeRef tr).name = some (l, a)
      ∧ s.map.typeOf? l a = s.map.typeOf? d n

/-- Every nested reference that is mapped leads to the place of what it denotes. -/
def NestedHygienic (s : ImportState) (ctx : Context) : Prop :=
  ∀ m tr outer sig, s.map.typeRefOf? m tr = some sig →
    ((ctx.module m).typeRef tr).scope = .nested outer → s.Means ctx m tr

/-! ## What an import keeps

References get their entries one at a time, and a nested one only after its outer reference. At
that moment the first type to answer for it is settled: it is taken from the sources of the place
that the outer reference means, and later sources come behind it. -/

/-- What is known of nested references throughout an import. -/
structure Nesting (s : ImportState) (ctx : Context) : Prop where
  placed : ∀ m, s.NestedPlaced ctx m
  /-- A reference is mapped after the one that it is nested in. -/
  outer : ∀ m tr o sig, s.map.typeRefOf? m tr = some sig →
    ((ctx.module m).typeRef tr).scope = .nested o → ∃ around, s.map.typeRefOf? m o = some around
  /-- In the place that its outer reference means, the first type of the name has answered. -/
  answered : ∀ m tr outer sig d o t n, s.map.typeRefOf? m tr = some sig →
    ((ctx.module m).typeRef tr).scope = .nested outer → ctx.Denotes m outer d o →
    s.map.typeRefOf? m outer = some (.definition t) → s.map.typeOf? d o = some t →
    n ∈ ((ctx.module d).typeDef o).nested →
    ((ctx.module d).typeDef n).name = ((ctx.module m).typeRef tr).name →
    ∃ l a t', ctx.nestedAmong? (s.map.sourcesOf t) ((ctx.module m).typeRef tr).name = some (l, a)
      ∧ s.map.typeOf? l a = some t' ∧ sig = .definition t'

variable {s s' : ImportState} {ctx : Context}

/-- What a reference denotes that is not nested in another is what it leads to. -/
theorem Faithful.means_of_asks (hctx : ctx.registry.Accepted) (hf : s.Faithful ctx)
    {m l : ModuleId} {tr : TypeRefId} {sig : TypeSig} (hmap : s.map.typeRefOf? m tr = some sig)
    (hasks : ctx.Asks m ((ctx.module m).typeRef tr).scope l) : s.Means ctx m tr := by
  have hanswers := hf.answers hctx hmap hasks
  intro d type hdenotes
  cases hdenotes with
  | own hasks' hfind =>
    obtain rfl := Context.Asks.unique hctx hasks hasks'
    rw [hasks.typeRefName_eq] at hfind
    cases hanswers with
    | own hfind' ht =>
      rw [hfind] at hfind'
      cases hfind'
      exact ⟨_, ht, hmap⟩
    | forwarded hno _ _ | outside hno _ _ _ =>
      rw [hfind] at hno
      cases hno
  | forwarded hasks' hno hwalk =>
    obtain rfl := Context.Asks.unique hctx hasks hasks'
    rw [hasks.typeRefName_eq] at hno hwalk
    cases hanswers with
    | own hfind _ =>
      rw [hno] at hfind
      cases hfind
    | forwarded _ hwalk' ht =>
      rw [hwalk] at hwalk'
      cases hwalk'
      exact ⟨_, ht, hmap⟩
    | outside _ hwalk' _ _ =>
      rw [hwalk] at hwalk'
      cases hwalk'
  | nested hscope _ _ _ =>
    rw [hscope] at hasks
    cases hasks

theorem Nesting.placed_of_denotes (hctx : ctx.registry.Accepted) (hn : s.Nesting ctx)
    (hf : s.Faithful ctx) {m d : ModuleId} {tr : TypeRefId} {type : TypeId} {sig : TypeSig}
    (hdenotes : ctx.Denotes m tr d type) (hmap : s.map.typeRefOf? m tr = some sig) :
    ∃ t, s.map.typeOf? d type = some t := by
  induction hdenotes generalizing sig with
  | own hasks hfind =>
    obtain ⟨t, ht, -⟩ := hf.means_of_asks hctx hmap hasks _ _ (.own hasks hfind)
    exact ⟨t, ht⟩
  | forwarded hasks hno hwalk =>
    obtain ⟨t, ht, -⟩ := hf.means_of_asks hctx hmap hasks _ _ (.forwarded hasks hno hwalk)
    exact ⟨t, ht⟩
  | nested hscope _ hlisted _ ih =>
    -- what is listed in a type has a place when the type has one
    obtain ⟨around, haround⟩ := hn.outer _ _ _ _ hmap hscope
    obtain ⟨t, ht⟩ := ih haround
    exact hn.placed _ _ _ _ ht hlisted

/-- The entries of all references are as they were. -/
def SameRefs (s s' : ImportState) : Prop :=
  ∀ m tr, s'.map.typeRefOf? m tr = s.map.typeRefOf? m tr

/-- A reference has got its entry, and nothing else has changed. -/
def AddsRef (ctx : Context) (s s' : ImportState) : Prop :=
  ∃ m tr sig, s.map.find? m (.typeRef tr) = none
    ∧ s.FindsNested ctx m ((ctx.module m).typeRef tr) sig
    ∧ s' = { s with map := s.map.record m (.typeRef tr) (.type sig) }

theorem AddsRef.cases (h : AddsRef ctx s s') {m : ModuleId} {tr : TypeRefId} {sig : TypeSig}
    (hmap : s'.map.typeRefOf? m tr = some sig) :
    s.map.typeRefOf? m tr = some sig ∨ s.FindsNested ctx m ((ctx.module m).typeRef tr) sig := by
  obtain ⟨m', tr', sig', hfresh, hfinds, rfl⟩ := h
  rw [SymbolMap.typeRefOf?_eq_some] at hmap
  rcases SymbolMap.find?_record_cases hmap with hold | ⟨heq, hsig⟩
  · exact .inl (SymbolMap.typeRefOf?_eq_some.mpr hold)
  · cases heq
    cases hsig
    exact .inr hfinds

end ImportState

namespace Import

open ImportState

variable {ctx : Context} {s s' : ImportState}

theorem SignStep.refs (h : SignStep ctx s s') : s.SameRefs s' ∨ AddsRef ctx s s' := by
  cases h with
  | place h =>
    refine .inl fun m tr ↦ ?_
    rw [SymbolMap.typeRefOf?, h.find?_typeRef]
    rfl
  | resolve hfresh _ _ hfinds _ => exact .inr ⟨_, _, _, hfresh, hfinds, rfl⟩

theorem UseStep.refs (h : UseStep ctx s s') : s.SameRefs s' ∨ AddsRef ctx s s' := by
  cases h with
  | sign h => exact h.refs
  | intern _ => exact .inl fun _ _ ↦ rfl
  | resolve _ _ _ _ => exact .inl fun _ _ ↦ SymbolMap.typeRefOf?_record_of_ne (by simp)

theorem Step.refs (h : Step ctx s s') : s.SameRefs s' ∨ AddsRef ctx s s' := by
  cases h with
  | shape h =>
    cases h with
    | visit _ _ => exact .inl fun _ _ ↦ rfl
    | fill h =>
      cases h with
      | sign h => exact h.refs
      | hierarchy _ _ _ => exact .inl fun _ _ ↦ rfl
      | shareField _ _ _ | addField _ _ _ _ | shareMethod _ _ _ _ _ _ | addMethod _ _ _ _ _ _ =>
        exact .inl fun _ _ ↦ SymbolMap.typeRefOf?_record_of_ne (by simp)
  | copy h =>
    cases h with
    | use h => exact h.refs
    | visit _ _ | setBody _ _ _ _ => exact .inl fun _ _ ↦ rfl

/-- The reference that is mapped last found its outer reference mapped. -/
theorem Step.outer_mapped (h : Step ctx s s') (hn : s.Nesting ctx) {m : ModuleId}
    {tr o : TypeRefId} {sig : TypeSig} (hmap : s'.map.typeRefOf? m tr = some sig)
    (hscope : ((ctx.module m).typeRef tr).scope = .nested o) :
    ∃ around, s.map.typeRefOf? m o = some around := by
  rcases h.refs with hsame | hadds
  · rw [hsame] at hmap
    exact hn.outer _ _ _ _ hmap hscope
  · rcases hadds.cases hmap with hold | hfinds
    · exact hn.outer _ _ _ _ hold hscope
    · obtain ⟨around, haround, -⟩ := hfinds _ hscope
      exact ⟨around, haround⟩

section Accepted

variable (hctx : ctx.registry.Accepted)
include hctx

theorem Step.answered (h : Step ctx s s') (hs : s.Sound ctx) (hf : s.Faithful ctx)
    (hn : s.Nesting ctx) {m d : ModuleId} {tr outer : TypeRefId} {sig : TypeSig} {o t n : TypeId}
    (hmap : s'.map.typeRefOf? m tr = some sig)
    (hscope : ((ctx.module m).typeRef tr).scope = .nested outer)
    (hdenotes : ctx.Denotes m outer d o)
    (houter : s'.map.typeRefOf? m outer = some (.definition t))
    (ho : s'.map.typeOf? d o = some t) (hlisted : n ∈ ((ctx.module d).typeDef o).nested)
    (hname : ((ctx.module d).typeDef n).name = ((ctx.module m).typeRef tr).name) :
    ∃ l a t', ctx.nestedAmong? (s'.map.sourcesOf t) ((ctx.module m).typeRef tr).name = some (l, a)
      ∧ s'.map.typeOf? l a = some t' ∧ sig = .definition t' := by
  have hg := h.grows
  -- the outer reference and what it denotes were where they are now
  obtain ⟨around, haround⟩ := h.outer_mapped hn hmap hscope
  have hsame := hg.map.typeRefOf? haround
  rw [houter] at hsame
  cases hsame
  obtain ⟨t₀, ht₀⟩ := hn.placed_of_denotes hctx hf hdenotes haround
  have hsame := hg.map.typeOf? ht₀
  rw [ho] at hsame
  cases hsame
  -- so in the state before the first type of the name has answered, and no one comes before it
  suffices hbefore : ∃ l a t', ctx.nestedAmong? (s.map.sourcesOf t)
      ((ctx.module m).typeRef tr).name = some (l, a)
        ∧ s.map.typeOf? l a = some t' ∧ sig = .definition t' by
    obtain ⟨l, a, t', hfound, ha, hsig⟩ := hbefore
    exact ⟨l, a, t', Context.nestedAmong?_of_prefix (hg.sources t) hfound, hg.map.typeOf? ha, hsig⟩
  have hanswered : ∀ {sig}, s.map.typeRefOf? m tr = some sig → _ := fun hold ↦
    hn.answered _ _ _ _ _ _ _ _ hold hscope hdenotes haround ht₀ hlisted hname
  rcases h.refs with hsame | hadds
  · exact hanswered (hsame m tr ▸ hmap)
  · rcases hadds.cases hmap with hold | hfinds
    · exact hanswered hold
    · obtain ⟨⟨l, a⟩, hfound⟩ := Context.exists_nestedAmong?_eq_some (hs.sources.mpr ht₀) hlisted
      rw [hname] at hfound
      obtain ⟨around', haround', hleads⟩ := hfinds _ hscope
      rw [haround] at haround'
      cases haround'
      obtain ⟨t', ha, hsig⟩ := hleads t l a rfl hfound
      exact ⟨l, a, t', hfound, ha, hsig⟩

theorem Step.nesting (h : Step ctx s s') (hs : s.Sound ctx) (hf : s.Faithful ctx)
    (hn : s.Nesting ctx) : s'.Nesting ctx where
  placed := h.nestedPlaced hs hn.placed
  outer _ _ _ _ hmap hscope := by
    obtain ⟨around, haround⟩ := h.outer_mapped hn hmap hscope
    exact ⟨around, h.grows.map.typeRefOf? haround⟩
  answered _ _ _ _ _ _ _ _ hmap hscope hdenotes houter ho hlisted hname :=
    h.answered hctx hs hf hn hmap hscope hdenotes houter ho hlisted hname

theorem Step.nesting_steps (h : ReflTransGen (Step ctx) s s') (hs : s.Sound ctx)
    (hf : s.Faithful ctx) (hn : s.Nesting ctx) : s'.Nesting ctx := by
  induction h with
  | refl => exact hn
  | tail hsteps hstep ih =>
    obtain ⟨hs', hf'⟩ := Step.invariants hsteps hs hf
    exact hstep.nesting hctx hs' hf' ih

end Accepted

end Import

theorem Context.nesting_startImport (ctx : Context) : ctx.startImport.Nesting ctx where
  placed _ _ _ _ h := by cases h
  outer _ _ _ _ h := by cases h
  answered _ _ _ _ _ _ _ _ h := by cases h

/-! ## When nested references keep their meaning

Along a scope chain the outermost reference means what it denotes. From there inwards, each one
keeps its meaning just if it is not captured. -/

namespace ImportState

section Nesting

variable {s : ImportState} {ctx : Context} {m : ModuleId}

/-- A mapped reference that is not nested in another means what it denotes. -/
theorem Faithful.means_of_root (hctx : ctx.registry.Accepted) (hf : s.Faithful ctx)
    {tr : TypeRefId} {sig : TypeSig} (hmap : s.map.typeRefOf? m tr = some sig)
    (hroot : ((ctx.module m).typeRef tr).scope.outer? = none) : s.Means ctx m tr := by
  intro d type hdenotes
  cases hdenotes with
  | own hasks hfind => exact hf.means_of_asks hctx hmap hasks _ _ (.own hasks hfind)
  | forwarded hasks hno hwalk =>
    exact hf.means_of_asks hctx hmap hasks _ _ (.forwarded hasks hno hwalk)
  | nested hscope _ _ _ => simp [hscope, Scope.outer?] at hroot

/-- A reference that is nested in one that means what it denotes does so itself exactly when it is
not captured. -/
theorem Nesting.means_iff_of_outer (hn : s.Nesting ctx) {tr outer : TypeRefId} {sig : TypeSig}
    (hmap : s.map.typeRefOf? m tr = some sig)
    (hscope : ((ctx.module m).typeRef tr).scope = .nested outer) (houter : s.Means ctx m outer) :
    s.Means ctx m tr ↔ s.Uncaptured ctx m tr := by
  constructor
  · intro hmeans outer' d o n hscope' hdenotes hlisted hname
    rw [hscope] at hscope'
    cases hscope'
    obtain ⟨t, ht, houterMap⟩ := houter d o hdenotes
    obtain ⟨l, a, t', hfound, ha, hsig⟩ :=
      hn.answered _ _ _ _ _ _ _ _ hmap hscope hdenotes houterMap ht hlisted hname
    obtain ⟨t'', hplace, hmap'⟩ := hmeans d n (.nested hscope hdenotes hlisted hname)
    rw [hmap, hsig] at hmap'
    cases hmap'
    exact ⟨t, l, a, ht, hfound, ha.trans hplace.symm⟩
  · intro hun d n hdenotes
    obtain ⟨o, hdenotes', hlisted, hname⟩ := hdenotes.nested_inv hscope
    obtain ⟨t, ht, houterMap⟩ := houter d o hdenotes'
    obtain ⟨l, a, t', hfound, ha, hsig⟩ :=
      hn.answered _ _ _ _ _ _ _ _ hmap hscope hdenotes' houterMap ht hlisted hname
    obtain ⟨t₀, l₀, a₀, ht₀, hfound₀, hsame⟩ := hun _ _ _ _ hscope hdenotes' hlisted hname
    rw [ht] at ht₀
    cases ht₀
    rw [hfound] at hfound₀
    cases hfound₀
    exact ⟨t', hsame ▸ ha, hsig ▸ hmap⟩

/-- The references of a scope chain all mean what they denote exactly when none is captured. -/
theorem Nesting.means_iff_of_chain (hctx : ctx.registry.Accepted) (hn : s.Nesting ctx)
    (hf : s.Faithful ctx) {chain : List TypeRefId}
    (hchain : Chain.Complete (fun r ↦ ((ctx.module m).typeRef r).scope.outer?) chain) :
    ∀ tr ∈ chain.head?, ∀ sig, s.map.typeRefOf? m tr = some sig →
      ((∀ r ∈ chain, s.Means ctx m r) ↔ ∀ r ∈ chain, s.Uncaptured ctx m r) := by
  -- from the outermost reference, which cannot be captured, inwards
  induction hchain with
  | @last id hlast =>
    intro tr htr sig hmap
    cases htr
    have hmeans := hf.means_of_root hctx hmap hlast
    have hun : s.Uncaptured ctx m id := fun outer _ _ _ hscope ↦ by
      simp [hscope, Scope.outer?] at hlast
    simp [hmeans, hun]
  | @link id outer rest hlink _ ih =>
    intro tr htr sig hmap
    cases htr
    have hscope := Scope.outer?_eq_some.mp hlink
    obtain ⟨around, haround⟩ := hn.outer _ _ _ _ hmap hscope
    have hrest := ih outer rfl around haround
    simp only [List.forall_mem_cons] at hrest ⊢
    rw [← hrest]
    exact and_congr_left fun hmeans ↦ hn.means_iff_of_outer hmap hscope hmeans.1

end Nesting

end ImportState

/-- After an import, the references of the scope chain of any mapped reference lead to the places of
what they denote exactly when none of them is captured. -/
theorem means_iff_uncaptured_of_run {inputs : List Input} {ctx : Context} {s : ImportState}
    (hinputs : Registry.ofInputs inputs = .ok ctx.registry)
    (hrun : Import.run ctx ctx.startImport = .ok () s) {m : ModuleId} {tr : TypeRefId}
    {sig : TypeSig} (hmap : s.map.typeRefOf? m tr = some sig) :
    (∀ r ∈ (ctx.module m).scopeChain tr, s.Means ctx m r)
      ↔ ∀ r ∈ (ctx.module m).scopeChain tr, s.Uncaptured ctx m r := by
  have hctx := (Registry.accepted_of_ofInputs hinputs).1
  obtain ⟨hsteps, himported⟩ := (Import.reaches_run hctx).of_ok hrun
  have hnesting := Import.Step.nesting_steps hctx hsteps ctx.sound_startImport
    ctx.faithful_startImport ctx.nesting_startImport
  obtain ⟨rest, hrest⟩ := Chain.follow_eq_cons
    (fun r ↦ ((ctx.module m).typeRef r).scope.outer?) (ctx.module m).typeRefs.length tr
  exact hnesting.means_iff_of_chain hctx himported.faithful
    (Module.complete_scopeChain (Context.fault?_module hctx m) tr) tr
    (by simp [Module.scopeChain, hrest]) sig hmap

/-! ## A nested name that two modules use -/

/-- A program and a library that each have a type with another one inside, under the same names. The
library refers to its own inner type. Its outer type may be one that is kept for its contract. -/
def nestedRivals (contract : Bool) : List Input :=
  [{ isPrimary := true
     module :=
      { name := "App"
        types := [
          { name := "Outer", visibility := .public, nested := [⟨1⟩] },
          { name := "Inner", visibility := .nestedPublic, declaring := some ⟨0⟩ }] } },
   { isPrimary := false
     module :=
      { name := "Lib"
        types := [
          { name := "Outer", visibility := .public, isSerializable := contract, nested := [⟨1⟩]
            fields := [⟨0⟩] },
          { name := "Inner", visibility := .nestedPublic, declaring := some ⟨0⟩ }]
        fields := [
          { name := "part", access := .private, isStatic := false, fieldType := .reference ⟨1⟩
            declaring := ⟨0⟩ }]
        typeRefs := [⟨.local, "", "Outer"⟩, ⟨.nested ⟨0⟩, "", "Inner"⟩] } }]

/-- The link of the two with the library's types hidden, unless they have a contract. -/
def nestedRivalsLink (contract : Bool) : Context where
  registry := ⟨nestedRivals contract⟩
  policy := ⟨true, [], [], [], true⟩
  targetName := "App"

/-- What importing the two leaves. -/
def nestedRivalsImported (contract : Bool) : ImportState :=
  Import.finalState (Import.run (nestedRivalsLink contract)) (nestedRivalsLink contract).startImport

/-- The library's reference denotes its own inner type. -/
theorem denotes_nestedRivals (contract : Bool) :
    (nestedRivalsLink contract).Denotes ⟨1⟩ ⟨1⟩ ⟨1⟩ ⟨1⟩ := by
  have houter : (nestedRivalsLink contract).Denotes ⟨1⟩ ⟨0⟩ ⟨1⟩ ⟨0⟩ :=
    .own .own (by cases contract <;> decide +kernel)
  exact .nested rfl houter (List.mem_singleton.mpr rfl) rfl

/-- Hidden as a whole, the library's types have places of their own, and the reference leads to the
library's inner type. -/
theorem means_iff_uncaptured_nestedRivals :
    Registry.ofInputs (nestedRivals false) = .ok (nestedRivalsLink false).registry
    ∧ Import.run (nestedRivalsLink false) (nestedRivalsLink false).startImport
      = .ok () (nestedRivalsImported false)
    ∧ (nestedRivalsImported false).map.typeRefOf? ⟨1⟩ ⟨1⟩ = some (.definition ⟨3⟩)
    ∧ (nestedRivalsImported false).map.typeOf? ⟨1⟩ ⟨1⟩ = some ⟨3⟩
    ∧ ((∀ r ∈ ((nestedRivalsLink false).module ⟨1⟩).scopeChain ⟨1⟩,
        (nestedRivalsImported false).Means (nestedRivalsLink false) ⟨1⟩ r)
      ↔ ∀ r ∈ ((nestedRivalsLink false).module ⟨1⟩).scopeChain ⟨1⟩,
        (nestedRivalsImported false).Uncaptured (nestedRivalsLink false) ⟨1⟩ r) := by
  have hinputs : Registry.ofInputs (nestedRivals false) = .ok (nestedRivalsLink false).registry :=
    rfl
  have hrun : Import.run (nestedRivalsLink false) (nestedRivalsLink false).startImport
      = .ok () (nestedRivalsImported false) := Import.eq_ok_of_succeeds (by decide +kernel)
  have hmap : (nestedRivalsImported false).map.typeRefOf? ⟨1⟩ ⟨1⟩ = some (.definition ⟨3⟩) := by
    decide +kernel
  exact ⟨hinputs, hrun, hmap, by decide +kernel,
    means_iff_uncaptured_of_run hinputs hrun hmap⟩

/-- Kept for its contract, the library's outer type shares the place of the program's. Its inner
type is hidden and has a place of its own, but the program's answers for it. -/
theorem not_nestedHygienic_nestedRivals :
    Registry.ofInputs (nestedRivals true) = .ok (nestedRivalsLink true).registry
    ∧ Import.run (nestedRivalsLink true) (nestedRivalsLink true).startImport
      = .ok () (nestedRivalsImported true)
    ∧ ¬(nestedRivalsImported true).NestedHygienic (nestedRivalsLink true) := by
  refine ⟨rfl, Import.eq_ok_of_succeeds (by decide +kernel), fun h ↦ ?_⟩
  have hmap : (nestedRivalsImported true).map.typeRefOf? ⟨1⟩ ⟨1⟩ = some (.definition ⟨1⟩) := by
    decide +kernel
  have hplace : (nestedRivalsImported true).map.typeOf? ⟨1⟩ ⟨1⟩ = some ⟨2⟩ := by decide +kernel
  obtain ⟨t, ht, hleads⟩ := h ⟨1⟩ ⟨1⟩ ⟨0⟩ _ hmap rfl ⟨1⟩ ⟨1⟩ (denotes_nestedRivals true)
  rw [hplace] at ht
  rw [hmap] at hleads
  cases ht
  cases hleads

end ModuleLinker
