import ModuleLinker.Proofs.ExportList
import ModuleLinker.Proofs.Import.ExportRefs
import ModuleLinker.Proofs.ReferenceHygiene

/-!
# References and exports that lead out of the link

A name that no module of the link has may be met in two ways: a module refers to it, or a module
exports it. Each is followed on its own and becomes a reference of the output on its own. For an
export at the top both come to the same. A nested export is followed by its own name, so it may be
found to come from another module than the export that declares it; then its reference is nested in
a reference of its own.
-/

namespace ModuleLinker

/-! ## Modules whose exports have distinct names

Entries of exports are entered under their names, and the first one of a name wins. Where names
are distinct each export has its own entry. -/

namespace Module

variable {m : Module} {id : ExportId}

theorem findExport?_exportName (h : m.exportNames.Nodup) (hid : id.index < m.exportedTypes.length) :
    m.findExport? (m.exportName id) = some id := by
  have hmem : id ∈ m.exportIds := mem_exportIds.mpr hid
  cases hfind : m.findExport? (m.exportName id) with
  | none => simpa using List.find?_eq_none.mp hfind id hmem
  | some first =>
    have hname : m.exportName first = m.exportName id := by simpa using List.find?_some hfind
    rw [List.inj_on_of_nodup_map h (List.mem_of_find?_eq_some hfind) hmem hname]

theorem exportForwards_of_top (h : m.exportOuter? id = none) :
    m.exportForwards id = (m.exportedType id).isForwarder := by
  rw [exportForwards, exportChain_of_top h]
  simp

end Module

namespace Import

variable {ctx : Context} {s : ImportState} {m : ModuleId} {id : ExportId}

/-- A module's export of a name has become what it is to become. -/
theorem entered_of_all (hctx : ctx.registry.Accepted)
    (h : Import.all ctx ctx.startImport = .ok () s) (hexport : (m, id) ∈ ctx.exports)
    (hdistinct : (ctx.module m).exportNames.Nodup) :
    s.EntersExport ctx m id ∧ (((ctx.module m).exportForwards id = true →
      ¬ctx.HasType ((ctx.module m).exportName id)) → s.EntersReference ctx m id) := by
  obtain ⟨s₂, hsound, hsame, hresolve⟩ := exists_resolveExports hctx h
  have hfirst := Module.findExport?_exportName hdistinct (Context.mem_exports.mp hexport).2
  have hfresh : s₂.map.find? m (.export ((ctx.module m).exportName id)) = none :=
    hsame.entries m _
  exact ⟨entersExport_of_resolveExports hctx hsound hresolve hexport hfirst hfresh,
    fun hout ↦ entersReference_of_resolveExports hctx hsound hresolve hexport hout hfirst hfresh⟩

/-- An export that is entered as a reference is spelled out by it. -/
theorem spells_of_exportOf? (hctx : ctx.registry.Accepted)
    (h : Import.all ctx ctx.startImport = .ok () s) (hexport : (m, id) ∈ ctx.exports)
    (hdistinct : (ctx.module m).exportNames.Nodup) {r : TypeRefId}
    (hentry : s.map.exportOf? m ((ctx.module m).exportName id) = some (.reference r)) :
    s.target.Spells (ctx.module m) (ctx.exportHome? m id) id r := by
  obtain ⟨hentered, hreference⟩ := entered_of_all hctx h hexport hdistinct
  have hout : (ctx.module m).exportForwards id = true →
      ¬ctx.HasType ((ctx.module m).exportName id) := by
    intro hforwards hhas
    obtain ⟨d, type, t, -, hplace, -⟩ := hentered.inside hforwards hhas
    cases hentry.symm.trans hplace
  obtain ⟨r', hentry', hspells⟩ := hreference hout
  cases hentry.symm.trans hentry'
  exact hspells

end Import

/-! ## An export and the references to it

A reference asks for an export by name when its module has no type of that name. Following the
export and following the reference are two walks from the same module along the same
forwarders. -/

/-- A forwarder at the top of a module that has no type of the name; the module's exports have
distinct names. -/
structure Context.ForwardsOnly (ctx : Context) (f : ModuleId) (id : ExportId) : Prop where
  listed : (f, id) ∈ ctx.exports
  distinct : (ctx.module f).exportNames.Nodup
  top : (ctx.module f).exportOuter? id = none
  forwarder : ((ctx.module f).exportedType id).isForwarder = true
  free : ctx.findType? f ((ctx.module f).exportName id) = none

/-- A type reference asks a module for the type that the module exports under the name. -/
structure Context.AsksExport (ctx : Context) (m : ModuleId) (tr : TypeRefId) (f : ModuleId)
    (id : ExportId) : Prop where
  scope : ∃ a, ((ctx.module m).typeRef tr).scope = .assembly a
    ∧ Text.sameName (ctx.module f).name ((ctx.module m).assemblyRef a).name = true
  nspace : ((ctx.module m).typeRef tr).nspace = ((ctx.module f).exportedType id).nspace
  name : ((ctx.module m).typeRef tr).name = ((ctx.module f).exportedType id).name

theorem Context.AsksExport.asks {ctx : Context} {m f : ModuleId} {tr : TypeRefId} {id : ExportId}
    (h : ctx.AsksExport m tr f id) (hf : (f, id) ∈ ctx.exports) :
    ctx.Asks m ((ctx.module m).typeRef tr).scope f := by
  obtain ⟨a, hscope, hname⟩ := h.scope
  rw [hscope]
  exact .other (Registry.mem_ids.mpr (Context.mem_exports.mp hf).1) hname

theorem Context.AsksExport.qualified {ctx : Context} {m f : ModuleId} {tr : TypeRefId}
    {id : ExportId} (h : ctx.AsksExport m tr f id) (htop : (ctx.module f).exportOuter? id = none) :
    ((ctx.module m).typeRef tr).qualified = (ctx.module f).exportName id := by
  rw [TypeRef.qualified, Module.exportName_of_top htop, h.nspace, h.name]

/-- A mapped reference and the forwarder that it asks for lead to the same: where the forwarders
end. -/
def ImportState.AgreesOnForwarders (s : ImportState) (ctx : Context) : Prop :=
  ∀ {m f : ModuleId} {tr : TypeRefId} {id : ExportId} {sig : TypeSig}, ctx.ForwardsOnly f id →
    ctx.AsksExport m tr f id → s.map.typeRefOf? m tr = some sig →
    s.map.exportOf? f ((ctx.module f).exportName id) = some sig
      ∧ ∃ fin, ctx.followForwarders f ((ctx.module f).exportName id) = .ok fin
        ∧ s.EndsAt ctx ((ctx.module m).typeRef tr) sig fin

theorem Target.Spells.refers {t : Target} {source : Module} {id : ExportId} {r : TypeRefId}
    {assembly : String} (h : t.Spells source (some (Text.asciiLower assembly)) id r)
    (htop : source.exportOuter? id = none) :
    t.Refers assembly (source.exportedType id).nspace (source.exportedType id).name
      (.reference r) := by
  cases h with
  | top _ hscope hr href =>
    obtain ⟨a, rfl, ha, hname⟩ := hscope
    exact ⟨r, a, rfl, hr, href, ha, Text.sameName_iff.mpr hname⟩
  | nested houter _ _ _ => cases htop.symm.trans houter

section Agreement

variable {ctx : Context} {s : ImportState} (hctx : ctx.registry.Accepted)
  (h : Import.all ctx ctx.startImport = .ok () s)
include hctx h

/-- Folding and resolving exports leave every reference its meaning. -/
theorem Import.resolves_of_all {m : ModuleId} {tr : TypeRefId} {sig : TypeSig}
    (hmap : s.map.typeRefOf? m tr = some sig) :
    s.Resolves ctx m ((ctx.module m).typeRef tr) sig := by
  obtain ⟨s₁, hrun, hlate, -⟩ := late_of_all hctx h
  exact LateStep.resolves_steps hlate (imported_of_run hctx hrun).faithful.typeRefs hmap

theorem Import.agreesOnForwarders_of_all : s.AgreesOnForwarders ctx := by
  intro m f tr id sig hforwarder hasks hmap
  have hqualified := hasks.qualified hforwarder.top
  have hforwards : (ctx.module f).exportForwards id = true :=
    (Module.exportForwards_of_top hforwarder.top).trans hforwarder.forwarder
  have hanswers : s.Answers ctx f ((ctx.module m).typeRef tr) sig := by
    have hmerged := hasks.asks hforwarder.listed
    have hres := resolves_of_all hctx h hmap
    obtain ⟨a, hscope, -⟩ := hasks.scope
    rw [hscope] at hmerged
    unfold ImportState.Resolves at hres
    rw [hscope] at hres
    simpa only [hmerged.merged? hctx] using hres
  obtain ⟨hentered, hreference⟩ := entered_of_all hctx h hforwarder.listed hforwarder.distinct
  cases hanswers with
  | own hfind _ =>
    rw [hqualified, hforwarder.free] at hfind
    cases hfind
  | @forwarded d type t _ hwalk hplace =>
    rw [hqualified] at hwalk
    have hhas := (Context.exists_defined_iff hwalk).mp ⟨d, type, rfl⟩
    obtain ⟨d', type', t', hwalk', hentry, hplace'⟩ := hentered.inside hforwards hhas
    cases hwalk.symm.trans hwalk'
    cases hplace.symm.trans hplace'
    exact ⟨hentry, _, hwalk, t, hplace, rfl⟩
  | @outside f' a _ _ hwalk hout href =>
    rw [hqualified] at hwalk
    have hhas : ¬ctx.HasType ((ctx.module f).exportName id) := by
      rw [← Context.exists_defined_iff hwalk]
      rintro ⟨d, type, heq⟩
      cases heq
    obtain ⟨r, hentry, hspells⟩ := hreference fun _ ↦ hhas
    -- the walk for the export ends where the walk for the reference does
    have hhome : ctx.exportHome? f id
        = some (Text.asciiLower ((ctx.module f').assemblyRef a).name) := by
      simp [Context.exportHome?, Context.exportEnd, hforwards, hwalk, Context.outsideName?, hout]
    rw [hhome] at hspells
    have hrefers := hspells.refers hforwarder.top
    rw [← hasks.nspace, ← hasks.name] at hrefers
    obtain rfl : sig = .reference r :=
      (sound_of_all hctx h).interned.refers_unique href hrefers (Text.sameName_iff.mpr rfl)
    exact ⟨hentry, _, hwalk, Context.outside_iff.mpr hout, href⟩

end Agreement

/-- Whoever meets a name that leads through forwarders, a reference or an export, the output has one
answer: the same type of the output or the same reference. -/
theorem agreesOnForwarders_of_link {settings : Settings} {inputs : List Input} {r : Linked}
    (h : link settings inputs = .ok r) :
    ∃ ctx s, LinkedThrough settings inputs ctx s r ∧ s.AgreesOnForwarders ctx := by
  obtain ⟨ctx, s, hthrough⟩ := link_eq_ok_iff.mp h
  have hctx := (Registry.accepted_of_ofInputs hthrough.inputs).1
  exact ⟨ctx, s, hthrough, Import.agreesOnForwarders_of_all hctx hthrough.imported⟩

/-- A program that has a library's tool and part forwarded to it. -/
def forwarded : List Input :=
  [{ isPrimary := true
     module :=
      { name := "App"
        types := [{ nspace := "App", name := "Main", fields := [⟨0⟩, ⟨1⟩] }]
        fields := [
          { name := "tool", access := .public, isStatic := true, fieldType := .reference ⟨0⟩
            declaring := ⟨0⟩ },
          { name := "part", access := .public, isStatic := true, fieldType := .reference ⟨1⟩
            declaring := ⟨0⟩ }]
        typeRefs := [⟨.assembly ⟨0⟩, "Kit", "Tool"⟩, ⟨.assembly ⟨0⟩, "Kit", "Part"⟩]
        assemblyRefs := [⟨"LIB", {}⟩] } },
   { isPrimary := false
     module :=
      { name := "Lib"
        assemblyRefs := [⟨"Core", {}⟩]
        exportedTypes := [
          { nspace := "Kit", name := "Tool", implementation := .assembly ⟨0⟩, isForwarder := true },
          { nspace := "Kit", name := "Part", implementation := .assembly ⟨0⟩
            isForwarder := true }] } },
   { isPrimary := false
     module :=
      { name := "Core"
        types := [{ nspace := "Kit", name := "Part", visibility := .public }]
        assemblyRefs := [⟨"Ext", {}⟩]
        exportedTypes := [
          { nspace := "Kit", name := "Tool", implementation := .assembly ⟨0⟩
            isForwarder := true }] } }]

/-- The link of the three. -/
def forwardedLink : Context where
  registry := ⟨forwarded⟩
  policy := ⟨false, [], [], [], false⟩
  targetName := "App"

/-- What all steps before the output is finished leave. -/
def forwardedImported : ImportState :=
  Import.finalState (Import.all forwardedLink) forwardedLink.startImport

/-- The tool leads out of the link, two modules further on, and the part to the type that the third
module has; the library's exports lead there like the program's references. -/
theorem agreesOnForwarders_forwarded :
    ∃ r, link {} forwarded = .ok r ∧ LinkedThrough {} forwarded forwardedLink forwardedImported r
      ∧ forwardedLink.ForwardsOnly ⟨1⟩ ⟨0⟩ ∧ forwardedLink.AsksExport ⟨0⟩ ⟨0⟩ ⟨1⟩ ⟨0⟩
      ∧ forwardedLink.ForwardsOnly ⟨1⟩ ⟨1⟩ ∧ forwardedLink.AsksExport ⟨0⟩ ⟨1⟩ ⟨1⟩ ⟨1⟩
      ∧ forwardedImported.AgreesOnForwarders forwardedLink
      ∧ forwardedImported.map.typeRefOf? ⟨0⟩ ⟨0⟩ = some (.reference ⟨0⟩)
      ∧ forwardedImported.map.typeRefOf? ⟨0⟩ ⟨1⟩ = some (.definition ⟨1⟩) := by
  have hall : Import.all forwardedLink forwardedLink.startImport = .ok () forwardedImported :=
    Import.eq_ok_of_succeeds (by decide +kernel)
  have hthrough : LinkedThrough {} forwarded forwardedLink forwardedImported ⟨_, _⟩ :=
    ⟨rfl, rfl, rfl, hall, rfl, rfl⟩
  have hlink := link_eq_ok_iff.mpr ⟨_, _, hthrough⟩
  obtain ⟨ctx, s, hthrough', hagrees⟩ := agreesOnForwarders_of_link hlink
  obtain ⟨rfl, rfl⟩ := hthrough.unique hthrough'
  have hforwards : ∀ id, (⟨1⟩, id) ∈ forwardedLink.exports →
      ((forwardedLink.module ⟨1⟩).exportOuter? id = none
        ∧ ((forwardedLink.module ⟨1⟩).exportedType id).isForwarder = true
        ∧ forwardedLink.findType? ⟨1⟩ ((forwardedLink.module ⟨1⟩).exportName id) = none) →
      forwardedLink.ForwardsOnly ⟨1⟩ id :=
    fun id hid h ↦ ⟨hid, by decide +kernel, h.1, h.2.1, h.2.2⟩
  refine ⟨_, hlink, hthrough, hforwards _ ?_ ?_, ⟨⟨⟨0⟩, rfl, ?_⟩, rfl, rfl⟩, hforwards _ ?_ ?_,
    ⟨⟨⟨0⟩, rfl, ?_⟩, rfl, rfl⟩, hagrees, ?_, ?_⟩
  all_goals decide +kernel

/-! ## Nested exports

Each export is followed by its own name. When the library forwards the outer type and not the
inner one, the two walks end in different places, and the reference for the inner one has to be
nested in a reference that nobody asked for. -/

section Finish

variable (s : ImportState) (ctx : Context)

@[simp] theorem ImportState.typeRefs_finish : (s.finish ctx).typeRefs = s.target.typeRefs := by
  change (applyOffsets _ _ _).2.typeRefs = _
  unfold applyOffsets
  split <;> rfl

@[simp] theorem ImportState.assemblyRefs_finish :
    (s.finish ctx).assemblyRefs = s.target.assemblyRefs := by
  change (applyOffsets _ _ _).2.assemblyRefs = _
  unfold applyOffsets
  split <;> rfl

end Finish

section Output

variable {settings : Settings} {inputs : List Input} {ctx : Context} {s : ImportState} {r : Linked}
  (h : LinkedThrough settings inputs ctx s r)
include h

theorem LinkedThrough.typeRefs_eq : r.module.typeRefs = s.target.typeRefs := by
  rw [h.module]
  exact s.typeRefs_finish ctx

theorem LinkedThrough.assemblyRefs_eq : r.module.assemblyRefs = s.target.assemblyRefs := by
  rw [h.module]
  exact s.assemblyRefs_finish ctx

theorem LinkedThrough.typeRef_eq (id : TypeRefId) :
    r.module.typeRef id = Module.typeRef s.target id := by
  rw [Module.typeRef, Module.typeRef, h.typeRefs_eq]

end Output

/-- Nested references for nested exports: what the export that declares another one becomes is what
the reference for the other is nested in. -/
def Context.NestsExports (ctx : Context) (s : ImportState) (output : Module) : Prop :=
  ∀ m id outer r o, (m, id) ∈ ctx.exports → (ctx.module m).exportNames.Nodup →
    (ctx.module m).exportOuter? id = some outer →
    s.map.exportOf? m ((ctx.module m).exportName id) = some (.reference r) →
    s.map.exportOf? m ((ctx.module m).exportName outer) = some (.reference o) →
    (output.typeRef r).scope = .nested o

/-- The references that the exports of an input become. -/
structure Context.SpellsExports (ctx : Context) (s : ImportState) (output : Module) : Prop where
  /-- A reference spells its export out, from the module that the export is found to come from. -/
  spelled : ∀ {m id r}, (m, id) ∈ ctx.exports → (ctx.module m).exportNames.Nodup →
    s.map.exportOf? m ((ctx.module m).exportName id) = some (.reference r) →
    Target.Spells output (ctx.module m) (ctx.exportHome? m id) id r
  /-- So the reference for a nested export is nested in what the declaring export becomes exactly
  when both are found to come from one module. -/
  inside_iff : ∀ {m id outer r o}, (m, id) ∈ ctx.exports → (ctx.module m).exportNames.Nodup →
    (ctx.module m).exportOuter? id = some outer →
    s.map.exportOf? m ((ctx.module m).exportName id) = some (.reference r) →
    s.map.exportOf? m ((ctx.module m).exportName outer) = some (.reference o) →
    ((output.typeRef r).scope = .nested o ↔ ctx.exportHome? m id = ctx.exportHome? m outer)

theorem Target.Spells.congr {t t' : Target} {source : Module} {home : Option String} {id : ExportId}
    {r : TypeRefId} (h : t.Spells source home id r) (hr : t'.typeRefs = t.typeRefs)
    (ha : t'.assemblyRefs = t.assemblyRefs) : t'.Spells source home id r := by
  have href : ∀ r, Module.typeRef t' r = Module.typeRef t r := fun r ↦ by
    rw [Module.typeRef, Module.typeRef, hr]
  induction h with
  | @top id r scope houter hscope hlt heq =>
    refine .top houter ?_ (hr ▸ hlt) ((href r).trans heq)
    cases home with
    | none => exact hscope
    | some name =>
      obtain ⟨a, hscope, halt, hname⟩ := hscope
      exact ⟨a, hscope, ha ▸ halt, by rwa [Module.assemblyRef, ha]⟩
  | @nested id outer r o houter _ hlt heq ih =>
    exact .nested houter ih (hr ▸ hlt) ((href r).trans heq)

/-- Every export that leads out of the link is spelled out by its reference. -/
theorem spellsExports_of_link {settings : Settings} {inputs : List Input} {r : Linked}
    (h : link settings inputs = .ok r) :
    ∃ ctx s, LinkedThrough settings inputs ctx s r ∧ ctx.SpellsExports s r.module := by
  obtain ⟨ctx, s, hthrough⟩ := link_eq_ok_iff.mp h
  have hctx := (Registry.accepted_of_ofInputs hthrough.inputs).1
  have hspelled : ∀ {m id r'}, (m, id) ∈ ctx.exports → (ctx.module m).exportNames.Nodup →
      s.map.exportOf? m ((ctx.module m).exportName id) = some (.reference r') →
      Target.Spells r.module (ctx.module m) (ctx.exportHome? m id) id r' :=
    fun hexport hdistinct hentry ↦ (Import.spells_of_exportOf? hctx hthrough.imported hexport
      hdistinct hentry).congr hthrough.typeRefs_eq hthrough.assemblyRefs_eq
  have hinterned : Target.Interned r.module :=
    (Import.sound_of_all hctx hthrough.imported).interned.congr hthrough.typeRefs_eq
      hthrough.assemblyRefs_eq
  refine ⟨ctx, s, hthrough, hspelled, ?_⟩
  intro m id outer r' o hexport hdistinct houter hentry hentry'
  have hm := (Context.mem_exports.mp hexport).1
  have hlt := Module.lt_of_exportOuter? (hctx.fault?_module m) houter
  exact Target.Spells.scope_eq_nested_iff hinterned houter (hspelled hexport hdistinct hentry)
    (hspelled (Context.mem_exports.mpr ⟨hm, hlt⟩) hdistinct hentry')

/-- A forwarder to the one module that is referred to. -/
def outerForwarder : ExportedType :=
  { nspace := "Kit", name := "Outer", implementation := .assembly ⟨0⟩, isForwarder := true }

/-- A forwarder nested in it. -/
def innerForwarder : ExportedType :=
  { nspace := "", name := "Inner", implementation := .declaring ⟨0⟩, isForwarder := true }

/-- A program that has two nested types forwarded to a library, and what the library exports of a
module outside. -/
def relaying (exportedTypes : List ExportedType) : List Input :=
  [{ isPrimary := true
     module :=
      { name := "App", assemblyRefs := [⟨"Lib", {}⟩]
        exportedTypes := [outerForwarder, innerForwarder] } },
   { isPrimary := false
     module := { name := "Lib", assemblyRefs := [⟨"Ext", {}⟩], exportedTypes } }]

/-- The link of the two. -/
def relayingLink (exportedTypes : List ExportedType) : Context where
  registry := ⟨relaying exportedTypes⟩
  policy := ⟨false, [], [], [], false⟩
  targetName := "App"

/-- What all steps before the output is finished leave. -/
def relayed (exportedTypes : List ExportedType) : ImportState :=
  Import.finalState (Import.all (relayingLink exportedTypes))
    (relayingLink exportedTypes).startImport

/-- Both types are found outside when the library forwards both, and the references are nested as
the exports are. -/
theorem spellsExports_relayed : ∃ r, link {} (relaying [outerForwarder, innerForwarder]) = .ok r
    ∧ Context.SpellsExports (relayingLink [outerForwarder, innerForwarder])
      (relayed [outerForwarder, innerForwarder]) r.module
    ∧ (r.module.typeRef ⟨1⟩).scope = .nested ⟨0⟩ := by
  have hall : Import.all (relayingLink [outerForwarder, innerForwarder])
      (relayingLink [outerForwarder, innerForwarder]).startImport
        = .ok () (relayed [outerForwarder, innerForwarder]) :=
    Import.eq_ok_of_succeeds (by decide +kernel)
  have hthrough : LinkedThrough {} (relaying [outerForwarder, innerForwarder])
      (relayingLink [outerForwarder, innerForwarder]) (relayed [outerForwarder, innerForwarder])
      ⟨_, _⟩ := ⟨rfl, rfl, rfl, hall, rfl, rfl⟩
  have hlink := link_eq_ok_iff.mpr ⟨_, _, hthrough⟩
  obtain ⟨ctx, s, hthrough', hspells⟩ := spellsExports_of_link hlink
  obtain ⟨rfl, rfl⟩ := hthrough.unique hthrough'
  have hinside := @Context.SpellsExports.inside_iff _ _ _ hspells ⟨0⟩ ⟨1⟩ ⟨0⟩ ⟨1⟩ ⟨0⟩
    (by decide +kernel) (by decide +kernel) rfl (by decide +kernel) (by decide +kernel)
  exact ⟨_, hlink, hspells, hinside.mpr (by decide +kernel)⟩

/-- When the library forwards the outer type only, that is found outside and the inner one nowhere,
so the reference for the inner one is nested in a reference of its own. -/
theorem not_nestsExports_relayed : ¬∀ ctx s r,
    LinkedThrough {} (relaying [outerForwarder]) ctx s r → ctx.NestsExports s r.module := by
  intro h
  have hall : Import.all (relayingLink [outerForwarder]) (relayingLink [outerForwarder]).startImport
      = .ok () (relayed [outerForwarder]) := Import.eq_ok_of_succeeds (by decide +kernel)
  have hthrough : LinkedThrough {} (relaying [outerForwarder]) (relayingLink [outerForwarder])
      (relayed [outerForwarder]) ⟨_, _⟩ := ⟨rfl, rfl, rfl, hall, rfl, rfl⟩
  have hnested := h _ _ _ hthrough ⟨0⟩ ⟨1⟩ ⟨0⟩ ⟨2⟩ ⟨0⟩ (by decide +kernel) (by decide +kernel) rfl
    (by decide +kernel) (by decide +kernel)
  rw [hthrough.typeRef_eq] at hnested
  have hroot : (Module.typeRef (relayed [outerForwarder]).target ⟨2⟩).scope ≠ .nested ⟨0⟩ := by
    decide +kernel
  exact hroot hnested

end ModuleLinker
