import ModuleLinker.Proofs.Import.Run

/-!
# Reference hygiene

Merging gives types new names, merges types of one name, and lets a module's type take a name that
another module's references use. None of that may change what a reference means. A reference is
resolved by the names of the inputs: in the module that it asks, then along that module's
forwarders, and only a module outside the link turns it into a reference of the output. There is one
such reference for each external type.
-/

namespace ModuleLinker

/-- The input module that a reference asks for a type: its own module, or the one whose name its
scope gives, in any case. -/
inductive Context.Asks (ctx : Context) (m : ModuleId) : Scope → ModuleId → Prop
  | own : Asks ctx m .local m
  | other {a : AssemblyRefId} {l : ModuleId} (hl : l ∈ ctx.registry.ids)
      (hname : Text.sameName (ctx.module l).name ((ctx.module m).assemblyRef a).name = true) :
      Asks ctx m (.assembly a) l

/-- The scope of a reference is a module that does not take part in the link. -/
def Context.Outside (ctx : Context) (m : ModuleId) (a : AssemblyRefId) : Prop :=
  ∀ l ∈ ctx.registry.ids,
    Text.sameName (ctx.module l).name ((ctx.module m).assemblyRef a).name = false

namespace ImportState

/-- What a reference becomes that is answered by forwarders. -/
def EndsAt (s : ImportState) (ctx : Context) (r : TypeRef) (sig : TypeSig) : ForwardEnd → Prop
  | .defined d type => ∃ t, s.map.typeOf? d type = some t ∧ sig = .definition t
  | .external f a => ctx.Outside f a
    ∧ s.target.Refers ((ctx.module f).assemblyRef a).name r.nspace r.name sig
  | .unresolved => False

/-- Every mapped reference that is not nested in another means what it means in its module. -/
structure Hygienic (s : ImportState) (ctx : Context) : Prop where
  /-- A module that has a type of the name answers with it. -/
  own : ∀ {m tr sig l type}, s.map.typeRefOf? m tr = some sig →
    ctx.Asks m ((ctx.module m).typeRef tr).scope l →
    ctx.findType? l ((ctx.module m).typeRefName tr) = some type →
    ∃ t, s.map.typeOf? l type = some t ∧ sig = .definition t
  /-- A module that has none answers with what its forwarders lead to. -/
  forwarded : ∀ {m tr sig l}, s.map.typeRefOf? m tr = some sig →
    ctx.Asks m ((ctx.module m).typeRef tr).scope l →
    ctx.findType? l ((ctx.module m).typeRefName tr) = none →
    ∃ fin, ctx.followForwarders l ((ctx.module m).typeRefName tr) = .ok fin
      ∧ s.EndsAt ctx ((ctx.module m).typeRef tr) sig fin
  /-- A module outside the link is referred to under its own name. -/
  outside : ∀ {m tr sig a}, s.map.typeRefOf? m tr = some sig →
    ((ctx.module m).typeRef tr).scope = .assembly a → ctx.Outside m a →
    s.target.Refers ((ctx.module m).assemblyRef a).name ((ctx.module m).typeRef tr).nspace
      ((ctx.module m).typeRef tr).name sig
  /-- An external type has one reference, whichever modules use it. -/
  shared : ∀ {m m' tr tr' sig sig' a a'}, s.map.typeRefOf? m tr = some sig →
    s.map.typeRefOf? m' tr' = some sig' → ((ctx.module m).typeRef tr).scope = .assembly a →
    ((ctx.module m').typeRef tr').scope = .assembly a' → ctx.Outside m a → ctx.Outside m' a' →
    Text.sameName ((ctx.module m).assemblyRef a).name ((ctx.module m').assemblyRef a').name = true →
    ((ctx.module m).typeRef tr).nspace = ((ctx.module m').typeRef tr').nspace →
    ((ctx.module m).typeRef tr).name = ((ctx.module m').typeRef tr').name → sig = sig'

end ImportState

theorem Target.Interned.refers_unique {t : Target} (ht : t.Interned)
    {assembly assembly' nspace name : String} {sig sig' : TypeSig}
    (h : t.Refers assembly nspace name sig) (h' : t.Refers assembly' nspace name sig')
    (hname : Text.sameName assembly assembly' = true) : sig = sig' := by
  obtain ⟨r, a, rfl, hr, href, ha, hsame⟩ := h
  obtain ⟨r', a', rfl, hr', href', ha', hsame'⟩ := h'
  rw [Text.sameName_iff] at hname hsame hsame'
  have haa : a = a' := by
    refine ht.eq_of_sameName ha ha' (Text.sameName_iff.mpr ?_)
    rw [hsame, hname, hsame']
  subst haa
  rw [ht.eq_of_typeRef hr hr' (href.trans href'.symm)]

section Accepted

variable {ctx : Context} (hctx : ctx.registry.Accepted)
include hctx

theorem Context.Asks.merged? {m l : ModuleId} {a : AssemblyRefId}
    (h : ctx.Asks m (.assembly a) l) :
    ctx.merged? ((ctx.module m).assemblyRef a).name = some l := by
  cases h with
  | other hl hname => exact hctx.find?_eq_some_iff.mpr ⟨hl, hname⟩

theorem Context.Asks.unique {m l l' : ModuleId} {scope : Scope} (h : ctx.Asks m scope l)
    (h' : ctx.Asks m scope l') : l' = l := by
  cases scope with
  | «local» =>
    cases h
    cases h'
    rfl
  | assembly a => exact Option.some_inj.mp ((merged? hctx h').symm.trans (merged? hctx h))
  | nested o => cases h

end Accepted

theorem Context.outside_iff {ctx : Context} {m : ModuleId} {a : AssemblyRefId} :
    ctx.Outside m a ↔ ctx.merged? ((ctx.module m).assemblyRef a).name = none :=
  Registry.find?_eq_none_iff.symm

/-- A mapped reference that asks a module of the link is answered by it. -/
theorem ImportState.Faithful.answers {s : ImportState} {ctx : Context}
    (hctx : ctx.registry.Accepted) (h : s.Faithful ctx) {m l : ModuleId} {tr : TypeRefId}
    {sig : TypeSig} (hmap : s.map.typeRefOf? m tr = some sig)
    (hasks : ctx.Asks m ((ctx.module m).typeRef tr).scope l) :
    s.Answers ctx l ((ctx.module m).typeRef tr) sig := by
  have hres := h.typeRefs hmap
  unfold ImportState.Resolves at hres
  cases hscope : ((ctx.module m).typeRef tr).scope with
  | «local» =>
    rw [hscope] at hres hasks
    cases hasks
    obtain ⟨type, t, hfind, ht, rfl⟩ := hres
    exact .own hfind ht
  | assembly a =>
    rw [hscope] at hres hasks
    simpa only [Context.Asks.merged? hctx hasks] using hres
  | nested o =>
    rw [hscope] at hasks
    cases hasks

theorem ImportState.Imported.answers {s : ImportState} {ctx : Context}
    (hctx : ctx.registry.Accepted) (h : s.Imported ctx) {m l : ModuleId} {tr : TypeRefId}
    {sig : TypeSig} (hmap : s.map.typeRefOf? m tr = some sig)
    (hasks : ctx.Asks m ((ctx.module m).typeRef tr).scope l) :
    s.Answers ctx l ((ctx.module m).typeRef tr) sig :=
  h.faithful.answers hctx hmap hasks

theorem ImportState.Imported.refers {s : ImportState} {ctx : Context} (h : s.Imported ctx)
    {m : ModuleId} {tr : TypeRefId} {a : AssemblyRefId} {sig : TypeSig}
    (hmap : s.map.typeRefOf? m tr = some sig)
    (hscope : ((ctx.module m).typeRef tr).scope = .assembly a) (hout : ctx.Outside m a) :
    s.target.Refers ((ctx.module m).assemblyRef a).name ((ctx.module m).typeRef tr).nspace
      ((ctx.module m).typeRef tr).name sig := by
  have hres := h.faithful.typeRefs hmap
  unfold ImportState.Resolves at hres
  rw [hscope] at hres
  simpa only [Context.outside_iff.mp hout] using hres

theorem Context.Asks.typeRefName_eq {ctx : Context} {m l : ModuleId} {tr : TypeRefId}
    (h : ctx.Asks m ((ctx.module m).typeRef tr).scope l) :
    (ctx.module m).typeRefName tr = ((ctx.module m).typeRef tr).qualified := by
  refine Module.typeRefName_of_root ?_
  cases hscope : ((ctx.module m).typeRef tr).scope with
  | «local» | assembly _ => rfl
  | nested o =>
    rw [hscope] at h
    cases h

/-- Whatever has been renamed, merged or shadowed, an import that succeeds keeps the meaning of
every reference that it maps. -/
theorem hygienic_of_run {inputs : List Input} {ctx : Context} {s : ImportState}
    (hinputs : Registry.ofInputs inputs = .ok ctx.registry)
    (hrun : Import.run ctx ctx.startImport = .ok () s) : s.Hygienic ctx := by
  have hctx := (Registry.accepted_of_ofInputs hinputs).1
  have h := Import.imported_of_run hctx hrun
  refine ⟨?_, ?_, fun hmap hscope hout ↦ h.refers hmap hscope hout, ?_⟩
  · -- a module that has the type itself answers with it, whatever the output calls it
    intro m tr sig l type hmap hasks hfind
    rw [hasks.typeRefName_eq] at hfind
    cases h.answers hctx hmap hasks with
    | own hfind' ht =>
      rw [hfind] at hfind'
      cases hfind'
      exact ⟨_, ht, rfl⟩
    | forwarded hno _ _ | outside hno _ _ _ =>
      rw [hfind] at hno
      cases hno
  · intro m tr sig l hmap hasks hno
    rw [hasks.typeRefName_eq] at hno ⊢
    cases h.answers hctx hmap hasks with
    | own hfind _ =>
      rw [hno] at hfind
      cases hfind
    | forwarded _ hwalk ht => exact ⟨_, hwalk, _, ht, rfl⟩
    | outside _ hwalk hout href => exact ⟨_, hwalk, Context.outside_iff.mpr hout, href⟩
  · intro m m' tr tr' sig sig' a a' hmap hmap' hscope hscope' hout hout' hassembly hnspace hname
    have href := h.refers hmap hscope hout
    have href' := h.refers hmap' hscope' hout'
    rw [← hnspace, ← hname] at href'
    exact h.sound.interned.refers_unique href href' hassembly

/-! ## A shadowed name -/

/-- A program and a library that both have a type of one name and refer to one external module. -/
def shadowing : List Input :=
  [{ isPrimary := true
     module :=
      { name := "App"
        types := [{ nspace := "Shared", name := "Widget", fields := [⟨0⟩, ⟨1⟩] }]
        fields := [
          { name := "theirs", access := .public, isStatic := true, fieldType := .reference ⟨0⟩
            declaring := ⟨0⟩ },
          { name := "stream", access := .public, isStatic := true, fieldType := .reference ⟨1⟩
            declaring := ⟨0⟩ }]
        typeRefs := [⟨.assembly ⟨0⟩, "Shared", "Widget"⟩, ⟨.assembly ⟨1⟩, "System.IO", "Stream"⟩]
        assemblyRefs := [⟨"LIB", {}⟩, ⟨"System", {}⟩] } },
   { isPrimary := false
     module :=
      { name := "Lib"
        types := [{ nspace := "Shared", name := "Widget", fields := [⟨0⟩] }]
        fields := [
          { name := "stream", access := .public, isStatic := true, fieldType := .reference ⟨0⟩
            declaring := ⟨0⟩ }]
        typeRefs := [⟨.assembly ⟨0⟩, "System.IO", "Stream"⟩]
        assemblyRefs := [⟨"SYSTEM", {}⟩] } }]

/-- The link of the two with the library's types hidden. -/
def shadowingLink : Context where
  registry := ⟨shadowing⟩
  policy := ⟨true, [], [], [], false⟩
  targetName := "App"

/-- What importing the two leaves. -/
def shadowed : ImportState :=
  Import.finalState (Import.run shadowingLink) shadowingLink.startImport

/-- The program's reference leads to the library's type, though that had to be renamed and the
program's own type has the name in the output; and there is one reference to the stream. -/
theorem hygienic_shadowed : Registry.ofInputs shadowing = .ok shadowingLink.registry
    ∧ Import.run shadowingLink shadowingLink.startImport = .ok () shadowed
    ∧ shadowed.Hygienic shadowingLink
    ∧ shadowed.map.typeRefOf? ⟨0⟩ ⟨0⟩ = some (.definition ⟨1⟩)
    ∧ shadowed.target.lookup? "Shared.Widget" = some ⟨0⟩
    ∧ shadowed.map.typeRefOf? ⟨0⟩ ⟨1⟩ = some (.reference ⟨0⟩)
    ∧ shadowed.map.typeRefOf? ⟨1⟩ ⟨0⟩ = some (.reference ⟨0⟩) := by
  have hinputs : Registry.ofInputs shadowing = .ok shadowingLink.registry := rfl
  have hrun : Import.run shadowingLink shadowingLink.startImport = .ok () shadowed :=
    Import.eq_ok_of_succeeds (by decide +kernel)
  refine ⟨hinputs, hrun, hygienic_of_run hinputs hrun, ?_, ?_, ?_, ?_⟩
  all_goals decide +kernel

end ModuleLinker
