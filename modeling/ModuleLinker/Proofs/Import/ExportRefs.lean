import ModuleLinker.Proofs.ResolvedExports

/-!
# The references that exports become

An export that leads to no type of the link becomes a chain of references: one for the export, one
for the export that declares it, and so on to the outermost, whose scope is the module outside the
link that the export was found to come from, or the output itself. Such a chain is determined by the
export and by that module, since the output has every reference once.
-/

namespace ModuleLinker

open Relation (ReflTransGen)

/-! ## Chains of references

The output has one reference for each scope, namespace and name, so a chain of references is
determined by what it spells out and by where it ends. -/

namespace Target

variable {t t' : Target} {source : Module} {home home' : Option String} {scope scope' : Scope}

/-- The scope of an outermost reference: a module outside the link, known by its name in lower case,
or the output. -/
def StandsFor (t : Target) : Option String → Scope → Prop
  | some name, scope => ∃ a, scope = .assembly a ∧ a.index < t.assemblyRefs.length
      ∧ Text.asciiLower (t.assemblyRef a).name = name
  | none, scope => scope = .local

theorem StandsFor.mono (h : t.StandsFor home scope) (ht : Module.Grows t t') :
    t'.StandsFor home scope := by
  cases home with
  | none => exact h
  | some name =>
    obtain ⟨a, hscope, ha, hname⟩ := h
    exact ⟨a, hscope, Nat.lt_of_lt_of_le ha (ht.within .assemblyRef), by rwa [ht.assembly ha]⟩

theorem StandsFor.home_eq (h : t.StandsFor home scope) (h' : t.StandsFor home' scope) :
    home = home' := by
  cases home with
  | none =>
    cases home' with
    | none => rfl
    | some name =>
      obtain ⟨a, hscope, -, -⟩ := h'
      cases hscope.symm.trans h
  | some name =>
    obtain ⟨a, rfl, -, rfl⟩ := h
    cases home' with
    | none => cases h'
    | some name' =>
      obtain ⟨a', heq, -, rfl⟩ := h'
      cases heq
      rfl

theorem Interned.standsFor_unique (ht : t.Interned) (h : t.StandsFor home scope)
    (h' : t.StandsFor home scope') : scope = scope' := by
  cases home with
  | none => exact Eq.trans h (Eq.symm h')
  | some name =>
    obtain ⟨a, rfl, ha, hname⟩ := h
    obtain ⟨a', rfl, ha', hname'⟩ := h'
    rw [ht.eq_of_sameName ha ha' (Text.sameName_iff.mpr (hname.trans hname'.symm))]

/-- A reference spells an export out: it has the export's namespace and name, and it is nested in a
reference that spells out the declaring export, or stands for the module that the export comes
from. -/
inductive Spells (t : Target) (source : Module) (home : Option String) :
    ExportId → TypeRefId → Prop
  | top {id : ExportId} {r : TypeRefId} {scope : Scope} (houter : source.exportOuter? id = none)
      (hscope : t.StandsFor home scope) (hr : r.index < t.typeRefs.length)
      (href : t.typeRef r
        = ⟨scope, (source.exportedType id).nspace, (source.exportedType id).name⟩) :
      Spells t source home id r
  | nested {id outer : ExportId} {r o : TypeRefId} (houter : source.exportOuter? id = some outer)
      (hin : Spells t source home outer o) (hr : r.index < t.typeRefs.length)
      (href : t.typeRef r
        = ⟨.nested o, (source.exportedType id).nspace, (source.exportedType id).name⟩) :
      Spells t source home id r

namespace Spells

variable {id outer : ExportId} {r r' o : TypeRefId}

theorem mono (h : t.Spells source home id r) (ht : Module.Grows t t') :
    t'.Spells source home id r := by
  induction h with
  | top houter hscope hr href =>
    exact .top houter (hscope.mono ht) (Nat.lt_of_lt_of_le hr (ht.within .typeRef))
      ((ht.typeRef hr).trans href)
  | nested houter _ hr href ih =>
    exact .nested houter ih (Nat.lt_of_lt_of_le hr (ht.within .typeRef))
      ((ht.typeRef hr).trans href)

theorem home_eq (h : t.Spells source home id r) (h' : t.Spells source home' id r) :
    home = home' := by
  induction h with
  | top houter hscope _ href =>
    cases h' with
    | top _ hscope' _ href' =>
      obtain ⟨rfl, -, -⟩ := TypeRef.mk.inj (href.symm.trans href')
      exact hscope.home_eq hscope'
    | nested houter' _ _ _ => cases houter.symm.trans houter'
  | nested houter _ _ href ih =>
    cases h' with
    | top houter' _ _ _ => cases houter.symm.trans houter'
    | nested houter' hin' _ href' =>
      cases houter.symm.trans houter'
      obtain ⟨heq, -, -⟩ := TypeRef.mk.inj (href.symm.trans href')
      cases heq
      exact ih hin'

/-- There is one reference that spells an export out for a module. -/
theorem unique (ht : t.Interned) (h : t.Spells source home id r)
    (h' : t.Spells source home id r') : r = r' := by
  induction h generalizing r' with
  | top houter hscope hr href =>
    cases h' with
    | top _ hscope' hr' href' =>
      obtain rfl := ht.standsFor_unique hscope hscope'
      exact ht.eq_of_typeRef hr hr' (href.trans href'.symm)
    | nested houter' _ _ _ => cases houter.symm.trans houter'
  | nested houter _ hr href ih =>
    cases h' with
    | top houter' _ _ _ => cases houter.symm.trans houter'
    | nested houter' hin' hr' href' =>
      cases houter.symm.trans houter'
      obtain rfl := ih hin'
      exact ht.eq_of_typeRef hr hr' (href.trans href'.symm)

/-- The reference for a nested export is nested in that for the declaring export exactly when the
two come from one module. -/
theorem scope_eq_nested_iff (ht : t.Interned) (houter : source.exportOuter? id = some outer)
    (h : t.Spells source home id r) (ho : t.Spells source home' outer o) :
    (t.typeRef r).scope = .nested o ↔ home = home' := by
  cases h with
  | top hnone _ _ _ => cases houter.symm.trans hnone
  | nested houter' hin _ href =>
    cases houter.symm.trans houter'
    rw [href]
    constructor
    · rintro heq
      cases heq
      exact hin.home_eq ho
    · rintro rfl
      rw [hin.unique ht ho]

end Spells

/-- The references for a complete chain of exports spell out its first export. -/
theorem spells_referChain {root : Scope} (hroot : t.StandsFor home root) {chain : List ExportId}
    {id : ExportId} (hcomplete : Chain.Complete source.exportOuter? (id :: chain)) :
    Module.Grows t (t.referChain source root (id :: chain)).2
      ∧ (t.referChain source root (id :: chain)).2.Spells source home id
        (t.referChain source root (id :: chain)).1 := by
  induction chain generalizing id with
  | nil =>
    cases hcomplete with
    | last houter =>
      have hgrows := t.grows_internTypeRef
        ⟨root, (source.exportedType id).nspace, (source.exportedType id).name⟩
      exact ⟨hgrows, .top houter (hroot.mono hgrows) (t.index_internTypeRef _)
        (t.typeRef_internTypeRef _)⟩
  | cons outer rest ih =>
    cases hcomplete with
    | link houter hrest =>
      obtain ⟨hgrows, hspells⟩ := ih hrest
      rw [referChain]
      have hgrows' := grows_internTypeRef (t.referChain source root (outer :: rest)).2
        ⟨.nested (t.referChain source root (outer :: rest)).1, (source.exportedType id).nspace,
          (source.exportedType id).name⟩
      exact ⟨hgrows.trans hgrows', .nested houter (hspells.mono hgrows') (index_internTypeRef _ _)
        (typeRef_internTypeRef _ _)⟩

end Target

/-! ## Where exports come from

A forwarder comes from the module at the end of its walk, any other export from the module that
its outermost export names. The second is also asked when a walk leads nowhere. -/

namespace Context

variable (ctx : Context)

/-- The module outside the link that an assembly reference of an input module names, in lower case;
none when it takes part in the link. -/
def outsideName? (m : ModuleId) (a : AssemblyRefId) : Option String :=
  if (ctx.merged? ((ctx.module m).assemblyRef a).name).isSome then none
  else some (Text.asciiLower ((ctx.module m).assemblyRef a).name)

/-- Where the forwarders of an export lead. One that does not forward leads nowhere, and neither
does a circle. -/
def exportEnd (m : ModuleId) (id : ExportId) : ForwardEnd :=
  if (ctx.module m).exportForwards id then
    match ctx.followForwarders m ((ctx.module m).exportName id) with
    | .ok fin => fin
    | .error _ => .unresolved
  else .unresolved

/-- The module outside the link that an export is found to come from: the one that its forwarders
lead to, or else the one that it names itself. -/
def exportHome? (m : ModuleId) (id : ExportId) : Option String :=
  match ctx.exportEnd m id with
  | .external f a => ctx.outsideName? f a
  | _ => ((ctx.module m).exportAssembly? id).bind (ctx.outsideName? m)

end Context

namespace Import

open ImportState

variable {ctx : Context} {s s' : ImportState} {m : ModuleId} {id : ExportId}

theorem exportEnd_eq {fin : ForwardEnd} (h : exportEnd ctx m id s = .ok fin s') :
    s' = s ∧ ctx.exportEnd m id = fin := by
  unfold exportEnd at h
  rw [Context.exportEnd]
  by_cases hforwards : (ctx.module m).exportForwards id = true
  · rw [if_pos hforwards] at h ⊢
    cases hwalk : ctx.followForwarders m ((ctx.module m).exportName id) with
    | error e =>
      rw [hwalk] at h
      cases h
    | ok fin' =>
      rw [hwalk] at h
      cases h
      exact ⟨rfl, rfl⟩
  · rw [if_neg hforwards] at h ⊢
    cases h
    exact ⟨rfl, rfl⟩

theorem standsFor_exportScope (a : Option AssemblyRefId) :
    Reaches ImportState.Grows s (exportScope ctx m a) fun scope s' ↦
      s'.target.StandsFor (a.bind (ctx.outsideName? m)) scope := by
  unfold exportScope
  cases a with
  | none => exact .pure rfl
  | some a =>
    refine .bind (reaches_resolveAssembly fun _ ↦ .of_target (Target.grows_referAssembly _ _))
      fun r s' _ hr ↦ ?_
    rw [Option.bind_some, Context.outsideName?]
    cases r with
    | merged l =>
      have hmerged : ctx.merged? ((ctx.module m).assemblyRef a).name = some l := hr
      rw [hmerged]
      exact .pure rfl
    | external a' =>
      obtain ⟨hout, ha'⟩ := hr
      rw [hout]
      exact .pure ⟨a', rfl, ha'.index_lt, Text.sameName_iff.mp ha'.name⟩

theorem spells_referExport {root : Scope} {home : Option String}
    (hroot : s.target.StandsFor home root) (id : ExportId) {r : TypeRefId}
    (h : (do
      let (r, target) ← ofExcept ((← get).target.referExport (ctx.module m) root id)
      modifyTarget fun _ ↦ target
      return r : Import TypeRefId) s = .ok r s') : s'.target.Spells (ctx.module m) home id r := by
  obtain ⟨s₁, s₂, hs₁, h⟩ := bind_eq_ok h
  cases hs₁
  obtain ⟨x, s₂, hx, h⟩ := bind_eq_ok h
  cases hrefer : s.target.referExport (ctx.module m) root id with
  | error e =>
    rw [hrefer] at hx
    cases hx
  | ok y =>
    rw [hrefer] at hx
    cases hx
    cases h
    obtain ⟨hloop, rfl⟩ := referExport_eq_ok hrefer
    obtain ⟨rest, hchain⟩ := (ctx.module m).exportChain_eq_cons id
    have hcomplete := Module.complete_exportChain hloop
    rw [hchain] at hcomplete ⊢
    exact (Target.spells_referChain hroot hcomplete).2

/-- The reference that an export becomes spells it out for the module that it comes from. -/
theorem spells_importExport {r : TypeRefId}
    (h : importExport ctx m id (ctx.exportEnd m id) s = .ok r s') :
    s'.target.Spells (ctx.module m) (ctx.exportHome? m id) id r := by
  unfold importExport at h
  rw [Context.exportHome?]
  cases hfin : ctx.exportEnd m id with
  | external f a =>
    rw [hfin] at h
    obtain ⟨root, s₁, hroot, h⟩ := bind_eq_ok h
    exact spells_referExport ((standsFor_exportScope (some a)).of_ok hroot).2 id h
  | defined _ _ | unresolved =>
    rw [hfin] at h
    obtain ⟨root, s₁, hroot, h⟩ := bind_eq_ok h
    exact spells_referExport ((standsFor_exportScope _).of_ok hroot).2 id h

/-! ## Entries of exports

An entry of an export is made once, under its name. Exports of the same name that are met later do
not change it. -/

end Import

/-- An export has become a reference that spells it out. -/
def ImportState.EntersReference (s : ImportState) (ctx : Context) (m : ModuleId) (id : ExportId) :
    Prop :=
  ∃ r, s.map.exportOf? m ((ctx.module m).exportName id) = some (.reference r)
    ∧ s.target.Spells (ctx.module m) (ctx.exportHome? m id) id r

theorem ImportState.EntersReference.of_grows {s s' : ImportState} {ctx : Context} {m : ModuleId}
    {id : ExportId} (h : s.EntersReference ctx m id) (hg : s.Grows s') :
    s'.EntersReference ctx m id := by
  obtain ⟨r, hentry, hspells⟩ := h
  exact ⟨r, hg.map.exportOf? hentry, hspells.mono hg.target⟩

namespace Import

variable {ctx : Context} {s s' : ImportState} {m : ModuleId} {id : ExportId}
  {emitted emitted' : ExportTable}

theorem grows_emitExport {source : Module} {r : TypeRefId}
    (h : emitExport emitted source id r s = .ok emitted' s') : s.Grows s' := by
  unfold emitExport at h
  obtain ⟨scope, s₁, hs₁, h⟩ := bind_eq_ok h
  cases hs₁
  cases htarget : emitted.target? source (source.exportedType id)
      (Module.typeRef s.target r).scope with
  | none =>
    rw [htarget] at h
    cases h
    exact .refl s
  | some implementation =>
    rw [htarget] at h
    cases h
    exact .of_target (.addExportedType _ _)

/-- Whether it is listed again or not, an export that leads out becomes a reference that spells it
out, unless its name is taken. -/
theorem entersReference_of_reference {fin : ForwardEnd} (hfin : ctx.exportEnd m id = fin)
    (hfresh : s.map.find? m (.export ((ctx.module m).exportName id)) = none)
    (h : (do
      let r ← importExport ctx m id fin
      modifyMap fun map ↦
        map.record m (.export ((ctx.module m).exportName id)) (.type (.reference r))
      if ctx.policy.hidesName ((ctx.module m).exportName id) (ctx.internalizes m)
          || emitted.contains ((ctx.module m).exportName id) then
        return emitted
      else emitExport emitted (ctx.module m) id r : Import ExportTable) s = .ok emitted' s') :
    s'.EntersReference ctx m id := by
  subst hfin
  obtain ⟨r, s₁, hr, h⟩ := bind_eq_ok h
  have hspells := spells_importExport hr
  have hsame := ImportState.SameExports.of_steps ((sameExports_importExport _).of_ok hr).1
  obtain ⟨_, s₂, hs₂, h⟩ := bind_eq_ok h
  cases hs₂
  have hentered : (enterExport s₁ m ((ctx.module m).exportName id)
      (.reference r)).EntersReference ctx m id := by
    refine ⟨r, SymbolMap.exportOf?_eq_some.mpr ?_, hspells⟩
    exact SymbolMap.find?_record_self ((hsame.entries _ _).trans hfresh) _
  by_cases hskip : (ctx.policy.hidesName ((ctx.module m).exportName id) (ctx.internalizes m)
      || emitted.contains ((ctx.module m).exportName id)) = true
  · rw [if_pos hskip] at h
    cases h
    exact hentered
  · rw [if_neg hskip] at h
    exact hentered.of_grows (grows_emitExport h)

theorem entersReference_of_resolveExport (h : resolveExport ctx emitted m id s = .ok emitted' s')
    (hout : (ctx.module m).exportForwards id = true →
      ¬ctx.HasType ((ctx.module m).exportName id))
    (hfresh : s.map.find? m (.export ((ctx.module m).exportName id)) = none) :
    s'.EntersReference ctx m id := by
  unfold resolveExport at h
  obtain ⟨fin, s₁, hfin, h⟩ := bind_eq_ok h
  obtain ⟨rfl, ⟨d, type, -, hleads⟩ | ⟨hne, -⟩⟩ := exportEnd_eq_ok hfin
  · exact absurd hleads.hasType (hout hleads.forwards)
  · have heq := (exportEnd_eq hfin).2
    cases fin with
    | defined d type => exact absurd rfl (hne d type)
    | external _ _ | unresolved => exact entersReference_of_reference heq hfresh h

/-- What the exports have become that have been gone through. -/
structure SpelledOut (ctx : Context) (s : ImportState) (done : List (ModuleId × ExportId))
    (emitted : ExportTable) (s' : ImportState) : Prop where
  entered : Entered ctx s done emitted s'
  references : ∀ l id, (l, id) ∈ done → ((ctx.module l).exportForwards id = true →
      ¬ctx.HasType ((ctx.module l).exportName id)) →
    (ctx.module l).findExport? ((ctx.module l).exportName id) = some id →
    s.map.find? l (.export ((ctx.module l).exportName id)) = none → s'.EntersReference ctx l id

theorem SpelledOut.step {done : List (ModuleId × ExportId)} {s₁ s₂ : ImportState}
    (hctx : ctx.registry.Accepted) (hdone : SpelledOut ctx s done emitted s₁)
    (hpre : done ++ [(m, id)] <+: ctx.exports)
    (hround : resolveExport ctx emitted m id s₁ = .ok emitted' s₂) :
    SpelledOut ctx s (done ++ [(m, id)]) emitted' s₂ := by
  refine ⟨hdone.entered.step hctx hpre hround, ?_⟩
  intro l id' hid' hout hfirst hfresh
  rcases List.mem_append.mp hid' with hid' | hid'
  · have hmem := Module.mem_exportIds.mpr (Context.mem_exports.mp (mem_of_initial hpre)).2
    have hsteps := ((reaches_resolveExport hctx hdone.entered.sound hdone.entered.within hmem).of_ok
      hround).1
    exact (hdone.references l id' hid' hout hfirst hfresh).of_grows
      (LateStep.grows_steps (ExportStep.late_steps hsteps))
  · cases List.mem_singleton.mp hid'
    refine entersReference_of_resolveExport hround hout ?_
    rw [hdone.entered.others m _ fun _ hearlier ↦
      Context.exportName_ne_of_first hpre hfirst hearlier]
    exact hfresh

/-- The first export of a name that leads out is entered as the reference that spells it out, unless
the name is taken. -/
theorem entersReference_of_resolveExports (hctx : ctx.registry.Accepted) (hs : s.Sound ctx)
    (h : resolveExports ctx s = .ok () s') (hexport : (m, id) ∈ ctx.exports)
    (hout : (ctx.module m).exportForwards id = true →
      ¬ctx.HasType ((ctx.module m).exportName id))
    (hfirst : (ctx.module m).findExport? ((ctx.module m).exportName id) = some id)
    (hfresh : s.map.find? m (.export ((ctx.module m).exportName id)) = none) :
    s'.EntersReference ctx m id := by
  have hstart : SpelledOut ctx s [] {} s :=
    ⟨⟨hs, fun _ _ he ↦ (by cases he), fun _ _ _ ↦ rfl, fun _ _ hid ↦ (by cases hid)⟩,
      fun _ _ hid ↦ (by cases hid)⟩
  obtain ⟨_, hall⟩ := resolveExports_induction h hstart fun hpre hdone hround ↦
    hdone.step hctx hpre hround
  exact hall.references m id hexport hout hfirst hfresh

end Import

end ModuleLinker
