import ModuleLinker.Proofs.ForwarderWalks
import ModuleLinker.Proofs.Import.Emit
import ModuleLinker.Proofs.Import.ExportOutcome

/-!
# Which exports are resolved

Where all exports could be resolved no walk was a circle, so a forwarder is resolved exactly when
some module has a type of its name. The export is entered as the place of the type that the walk
ends at, and any other export as a reference of the output.
-/

namespace ModuleLinker

namespace Context

variable {ctx : Context} {m d : ModuleId} {id : ExportId} {type : TypeId}

theorem Leads.hasType (h : ctx.Leads m id d type) :
    ctx.HasType ((ctx.module m).exportName id) :=
  (exists_defined_iff h.walk).mp ⟨d, type, rfl⟩

theorem LeadsOut.not_hasType (h : ctx.LeadsOut m id)
    (hforwards : (ctx.module m).exportForwards id = true) :
    ¬ctx.HasType ((ctx.module m).exportName id) := by
  obtain ⟨fin, hfin, hne⟩ := h hforwards
  rw [← exists_defined_iff hfin]
  rintro ⟨d, type, heq⟩
  exact hne d type heq

/-- Some of the exports is a module's forwarder of a name. -/
def ForwardsAmong (ctx : Context) (exports : List (ModuleId × ExportId)) (m : ModuleId)
    (qualified : String) : Prop :=
  ∃ id, (m, id) ∈ exports ∧ (ctx.module m).exportName id = qualified
    ∧ (ctx.module m).exportForwards id = true

/-- A module has a forwarder of a name. -/
def ForwardsName (ctx : Context) (m : ModuleId) (qualified : String) : Prop :=
  ctx.ForwardsAmong ctx.exports m qualified

theorem forwardsAmong_concat {done : List (ModuleId × ExportId)} {l : ModuleId}
    {qualified : String} :
    ctx.ForwardsAmong (done ++ [(m, id)]) l qualified ↔ ctx.ForwardsAmong done l qualified
      ∨ (l = m ∧ (ctx.module m).exportName id = qualified)
        ∧ (ctx.module m).exportForwards id = true := by
  simp only [ForwardsAmong, List.mem_append, List.mem_singleton, Prod.mk.injEq, or_and_right,
    exists_or]
  refine or_congr_right ⟨?_, ?_⟩
  · rintro ⟨_, ⟨rfl, rfl⟩, hname, hforwards⟩
    exact ⟨⟨rfl, hname⟩, hforwards⟩
  · rintro ⟨⟨rfl, hname⟩, hforwards⟩
    exact ⟨id, ⟨rfl, rfl⟩, hname, hforwards⟩

theorem exportName_ne_of_first {done : List (ModuleId × ExportId)}
    (hpre : done ++ [(m, id)] <+: ctx.exports)
    (hfirst : (ctx.module m).findExport? ((ctx.module m).exportName id) = some id)
    {earlier : ExportId} (hdone : (m, earlier) ∈ done) :
    (ctx.module m).exportName earlier ≠ (ctx.module m).exportName id := by
  have hlt : earlier.index < id.index :=
    (List.pairwise_append.mp (ctx.pairwise_exports.sublist hpre.sublist)).2.2
      (m, earlier) hdone (m, id) (List.mem_singleton_self _) rfl
  exact Module.exportName_ne_of_lt hfirst hlt

end Context

/-- What an export became: a forwarder of a name that some module has became the place of the type
that its walk ends at, and any other export a reference of the output. -/
structure ImportState.EntersExport (s : ImportState) (ctx : Context) (m : ModuleId)
    (id : ExportId) : Prop where
  inside : (ctx.module m).exportForwards id = true →
    ctx.HasType ((ctx.module m).exportName id) →
    ∃ d type t, ctx.followForwarders m ((ctx.module m).exportName id) = .ok (.defined d type)
      ∧ s.map.exportOf? m ((ctx.module m).exportName id) = some (.definition t)
      ∧ s.map.typeOf? d type = some t
  outside : ((ctx.module m).exportForwards id = true →
      ¬ctx.HasType ((ctx.module m).exportName id)) →
    ∃ r, s.map.exportOf? m ((ctx.module m).exportName id) = some (.reference r)

theorem ImportState.EntersExport.of_grows {s s' : ImportState} {ctx : Context} {m : ModuleId}
    {id : ExportId} (h : s.EntersExport ctx m id) (hg : s.Grows s') : s'.EntersExport ctx m id where
  inside hforwards hhas := by
    obtain ⟨d, type, t, hwalk, hentry, hplace⟩ := h.inside hforwards hhas
    exact ⟨d, type, t, hwalk, hg.map.exportOf? hentry, hg.map.typeOf? hplace⟩
  outside hout := by
    obtain ⟨r, hentry⟩ := h.outside hout
    exact ⟨r, hg.map.exportOf? hentry⟩

namespace Import

variable {ctx : Context} {s s' : ImportState} {m : ModuleId} {id : ExportId}
  {emitted emitted' : ExportTable}

/-! ## One export

What becomes of an export is known by cases. Only one that leads into the link is noted as
resolved, and any entry that is made is under the name of the export. -/

theorem ExportOutcome.resolved_cases (h : ExportOutcome ctx emitted m id s emitted' s') :
    (∃ d type, ctx.Leads m id d type)
        ∧ s'.map.resolved = s.map.resolved.insert (m, (ctx.module m).exportName id)
      ∨ ctx.LeadsOut m id ∧ s'.map.resolved = s.map.resolved := by
  cases h with
  | resolved hleads hplace =>
    have hsame := sameExports_of_ensureDeclared hplace
    exact .inl ⟨⟨_, _, hleads⟩, congrArg (List.insert _) hsame.resolved⟩
  | passedOver hout hsame _ | listed hout hsame _ _ _ _ => exact .inr ⟨hout, hsame.resolved⟩

theorem ExportOutcome.isResolved_iff (h : ExportOutcome ctx emitted m id s emitted' s')
    (l : ModuleId) (qualified : String) :
    s'.map.isResolved l qualified = true ↔ s.map.isResolved l qualified = true
      ∨ (l = m ∧ (ctx.module m).exportName id = qualified)
        ∧ (ctx.module m).exportForwards id = true ∧ ctx.HasType qualified := by
  simp only [SymbolMap.isResolved, List.contains_iff_mem]
  rcases h.resolved_cases with ⟨⟨d, type, hleads⟩, heq⟩ | ⟨hout, heq⟩
  · rw [heq, List.mem_insert_iff, Prod.mk.injEq, or_comm]
    refine or_congr_right ⟨?_, ?_⟩
    · rintro ⟨rfl, rfl⟩
      exact ⟨⟨rfl, rfl⟩, hleads.forwards, hleads.hasType⟩
    · rintro ⟨⟨rfl, rfl⟩, -⟩
      exact ⟨rfl, rfl⟩
  · rw [heq]
    refine (or_iff_left ?_).symm
    rintro ⟨⟨-, rfl⟩, hforwards, hhas⟩
    exact hout.not_hasType hforwards hhas

theorem ExportOutcome.find?_of_ne (h : ExportOutcome ctx emitted m id s emitted' s') {l : ModuleId}
    {qualified : String} (hne : l = m → (ctx.module m).exportName id ≠ qualified) :
    s'.map.find? l (.export qualified) = s.map.find? l (.export qualified) := by
  have hkey : (l, Symbol.export qualified)
      ≠ (m, Symbol.export ((ctx.module m).exportName id)) := by
    rintro heq
    cases heq
    exact hne rfl rfl
  cases h with
  | @resolved d type target s₁ _ hplace =>
    have hsame := sameExports_of_ensureDeclared hplace
    exact (SymbolMap.find?_record_of_ne hkey _).trans (hsame.entries l qualified)
  | passedOver _ hsame _ | listed _ hsame _ _ _ _ =>
    exact (SymbolMap.find?_record_of_ne hkey _).trans (hsame.entries l qualified)

theorem ExportOutcome.entersExport (hctx : ctx.registry.Accepted) (hs : s.Sound ctx)
    (h : ExportOutcome ctx emitted m id s emitted' s')
    (hfresh : s.map.find? m (.export ((ctx.module m).exportName id)) = none) :
    s'.EntersExport ctx m id := by
  have houtside : ∀ {s₁ : ImportState} {r : TypeRefId}, s.SameExports s₁ → ctx.LeadsOut m id →
      (enterExport s₁ m ((ctx.module m).exportName id) (.reference r)).EntersExport ctx m id := by
    intro s₁ r hsame hout
    refine ⟨fun hforwards hhas ↦ absurd hhas (hout.not_hasType hforwards), fun _ ↦ ⟨r, ?_⟩⟩
    rw [SymbolMap.exportOf?_eq_some]
    exact SymbolMap.find?_record_self ((hsame.entries _ _).trans hfresh) _
  cases h with
  | @resolved d type target s₁ hleads hplace =>
    have hsame := sameExports_of_ensureDeclared hplace
    have hin := Context.stands_of_followForwarders hleads.walk
    obtain ⟨-, hplaced⟩ := (reaches_ensureDeclared hctx hs hin).of_ok hplace
    refine ⟨fun _ _ ↦ ⟨d, type, target, hleads.walk, ?_, ?_⟩, fun hnot ↦ ?_⟩
    · rw [SymbolMap.exportOf?_eq_some]
      exact SymbolMap.find?_record_self ((hsame.entries _ _).trans hfresh) _
    · exact SymbolMap.Extends.typeOf? (SymbolMap.extends_record s₁.map _ _ _) hplaced
    · exact absurd hleads.hasType (hnot hleads.forwards)
  | passedOver hout hsame _ => exact houtside hsame hout
  | listed hout hsame _ _ _ _ =>
    exact ⟨(houtside hsame hout).inside, (houtside hsame hout).outside⟩

/-! ## All exports

Exports of one name are met in table order, and the first of them is entered. What it became can
be read off the map at the end, because later ones of the name change nothing. -/

/-- A forwarder is resolved exactly when some module has a type of its name. -/
theorem isResolved_iff_of_resolveExports (h : resolveExports ctx s = .ok () s') (l : ModuleId)
    (qualified : String) :
    s'.map.isResolved l qualified = true ↔ s.map.isResolved l qualified = true
      ∨ ctx.ForwardsName l qualified ∧ ctx.HasType qualified := by
  obtain ⟨-, hall⟩ := resolveExports_induction
    (J := fun done _ s' ↦ s'.map.isResolved l qualified = true
      ↔ s.map.isResolved l qualified = true
        ∨ ctx.ForwardsAmong done l qualified ∧ ctx.HasType qualified)
    h (by simp [Context.ForwardsAmong]) fun _ hdone hround ↦ by
      rw [(outcome_of_resolveExport hround).isResolved_iff, hdone, Context.forwardsAmong_concat,
        or_assoc, ← and_assoc, ← or_and_right]
  exact hall

/-- What has been entered after some of the exports. -/
structure Entered (ctx : Context) (s : ImportState) (done : List (ModuleId × ExportId))
    (emitted : ExportTable) (s' : ImportState) : Prop where
  sound : s'.Sound ctx
  within : emitted.Within s'.target
  others : ∀ l qualified, (∀ id, (l, id) ∈ done → (ctx.module l).exportName id ≠ qualified) →
    s'.map.find? l (.export qualified) = s.map.find? l (.export qualified)
  firsts : ∀ l id, (l, id) ∈ done →
    (ctx.module l).findExport? ((ctx.module l).exportName id) = some id →
    s.map.find? l (.export ((ctx.module l).exportName id)) = none → s'.EntersExport ctx l id

theorem Entered.step {done : List (ModuleId × ExportId)} {s₁ s₂ : ImportState}
    (hctx : ctx.registry.Accepted) (hdone : Entered ctx s done emitted s₁)
    (hpre : done ++ [(m, id)] <+: ctx.exports)
    (hround : resolveExport ctx emitted m id s₁ = .ok emitted' s₂) :
    Entered ctx s (done ++ [(m, id)]) emitted' s₂ := by
  have houtcome := outcome_of_resolveExport hround
  have hmem := Module.mem_exportIds.mpr (Context.mem_exports.mp (mem_of_initial hpre)).2
  obtain ⟨hsteps, hwithin⟩ :=
    (reaches_resolveExport hctx hdone.sound hdone.within hmem).of_ok hround
  refine ⟨ExportStep.sound_steps hsteps hdone.sound, hwithin, ?_, ?_⟩
  · intro l qualified hne
    rw [houtcome.find?_of_ne fun hl ↦ hl ▸ hne id (by simp [hl]), hdone.others]
    exact fun id' hid' ↦ hne id' (List.mem_append_left _ hid')
  · intro l id' hid' hfirst hfresh
    rcases List.mem_append.mp hid' with hid' | hid'
    · exact (hdone.firsts l id' hid' hfirst hfresh).of_grows
        (LateStep.grows_steps (ExportStep.late_steps hsteps))
    · cases List.mem_singleton.mp hid'
      refine houtcome.entersExport hctx hdone.sound ?_
      rw [hdone.others m _ fun _ hearlier ↦ Context.exportName_ne_of_first hpre hfirst hearlier]
      exact hfresh

/-- The first export of a name is entered for what it became, unless the name is taken. -/
theorem entersExport_of_resolveExports (hctx : ctx.registry.Accepted) (hs : s.Sound ctx)
    (h : resolveExports ctx s = .ok () s') (hexport : (m, id) ∈ ctx.exports)
    (hfirst : (ctx.module m).findExport? ((ctx.module m).exportName id) = some id)
    (hfresh : s.map.find? m (.export ((ctx.module m).exportName id)) = none) :
    s'.EntersExport ctx m id := by
  have hstart : Entered ctx s [] {} s :=
    ⟨hs, fun _ _ he ↦ (by cases he), fun _ _ _ ↦ rfl, fun _ _ hid ↦ (by cases hid)⟩
  obtain ⟨_, hall⟩ := resolveExports_induction h hstart fun hpre hdone hround ↦
    hdone.step hctx hpre hround
  exact hall.firsts m id hexport hfirst hfresh

end Import

/-! ## Exact walks -/

/-- Walks end where their trails do, before they have come through more modules than there are, and
they decide which exports are resolved. -/
structure Context.WalksExactly (ctx : Context) : Prop where
  walks : ∀ {origin qualified r}, ctx.followForwarders origin qualified = r
    ↔ ∃ visited current, Trail ctx qualified origin visited current
      ∧ EndsIn ctx qualified visited current r
  /-- A walk that is sent on has come through no more modules than there are: it makes no more hops
  than that. -/
  hops : ∀ {origin qualified visited current next}, Trail ctx qualified origin visited current →
    ctx.hop current qualified = .merged next → visited.length ≤ ctx.registry.size
  /-- The bound on walks is none: a larger one changes nothing. -/
  unbounded : ∀ {origin qualified bound}, ctx.registry.size ≤ bound →
    ctx.followWithin qualified bound [origin] origin = ctx.followForwarders origin qualified
  resolved : ∀ {s s' : ImportState}, Import.resolveExports ctx s = .ok () s' → ∀ m qualified,
    (s'.map.isResolved m qualified = true ↔ s.map.isResolved m qualified = true
      ∨ ctx.ForwardsName m qualified ∧ ctx.HasType qualified)
  entered : ∀ {s s' : ImportState} {m id}, ctx.registry.Accepted → s.Sound ctx →
    Import.resolveExports ctx s = .ok () s' → (m, id) ∈ ctx.exports →
    (ctx.module m).findExport? ((ctx.module m).exportName id) = some id →
    s.map.find? m (.export ((ctx.module m).exportName id)) = none → s'.EntersExport ctx m id

/-- Walks along forwarders are exact, whatever the modules send to one another. -/
theorem walksExactly (ctx : Context) : ctx.WalksExactly where
  walks := Context.followForwarders_eq_iff
  hops := Trail.length_le
  unbounded := Context.followWithin_eq_followForwarders
  resolved := Import.isResolved_iff_of_resolveExports
  entered := Import.entersExport_of_resolveExports

/-- A module that sends a name on to another. -/
def forwardingTo (name target : String) : Module where
  name := name
  assemblyRefs := [{ name := target, version := {} }]
  exportedTypes := [
    { nspace := "Kit", name := "Tool", implementation := .assembly ⟨0⟩, isForwarder := true }]

/-- A program and a library that send a name on to a module that has it. -/
def toolPath : Context where
  registry := ⟨[⟨forwardingTo "App" "Lib", true⟩, ⟨forwardingTo "Lib" "Core", false⟩,
    ⟨{ name := "Core", types := [{ nspace := "Kit", name := "Tool", visibility := .public }] },
      false⟩]⟩
  policy := ⟨false, [], [], [], false⟩
  targetName := "App"

/-- A program and a library that send a name to each other. -/
def toolRing : Context where
  registry := ⟨[⟨forwardingTo "App" "Lib", true⟩, ⟨forwardingTo "Lib" "App", false⟩]⟩
  policy := ⟨false, [], [], [], false⟩
  targetName := "App"

/-- The name leads through the library to the module that has it, and around the ring to where it
started. -/
theorem walksExactly_toolPath :
    (∃ visited current, Trail toolPath "Kit.Tool" ⟨0⟩ visited current
      ∧ EndsIn toolPath "Kit.Tool" visited current (.ok (.defined ⟨2⟩ ⟨0⟩)))
    ∧ (∃ visited current, Trail toolRing "Kit.Tool" ⟨0⟩ visited current
      ∧ EndsIn toolRing "Kit.Tool" visited current (.error (.cyclicForwarder
        ["[App]Kit.Tool", "[Lib]Kit.Tool", "[App]Kit.Tool"])))
    ∧ ∃ s, Import.resolveExports toolPath toolPath.startImport = .ok () s
      ∧ s.map.isResolved ⟨0⟩ "Kit.Tool" = true := by
  have hrun := Import.eq_ok_of_succeeds (x := Import.resolveExports toolPath)
    (s := toolPath.startImport) (by decide +kernel)
  have hforwards : toolPath.ForwardsName ⟨0⟩ "Kit.Tool" :=
    ⟨⟨0⟩, by decide +kernel, by decide +kernel, by decide +kernel⟩
  have hhas : toolPath.HasType "Kit.Tool" := ⟨⟨2⟩, by decide +kernel, ⟨0⟩, by decide +kernel⟩
  exact ⟨(walksExactly toolPath).walks.mp (by decide +kernel),
    (walksExactly toolRing).walks.mp (by decide +kernel),
    _, hrun, ((walksExactly toolPath).resolved hrun ⟨0⟩ "Kit.Tool").mpr (.inr ⟨hforwards, hhas⟩)⟩

end ModuleLinker
