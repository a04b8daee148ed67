import ModuleLinker.Proofs.Finished
import ModuleLinker.Proofs.Homomorphism
import ModuleLinker.Proofs.Import.Accounting
import ModuleLinker.Proofs.Import.Makers

/-!
# Module-level members

The module-level types of all modules share one place, and their members meet there: fields by name,
methods by name and signature. The list of conflicts speaks of other types only. So it names two
modules whose module-level members are fused exactly when other types of the two collide as well.
-/

namespace ModuleLinker

/-! ## Two modules and the report

Conflicts are noted when a type comes second to a place, and never for a reserved type, which goes
to its place before anybody looks for a name. -/

/-- A conflict is between two modules, whichever of them came first. -/
def Conflict.Names (c : Conflict) (ctx : Context) (m l : ModuleId) : Prop :=
  c.keptFrom = (ctx.module m).name ∧ c.mergedFrom = (ctx.module l).name
    ∨ c.keptFrom = (ctx.module l).name ∧ c.mergedFrom = (ctx.module m).name

namespace ImportState

/-- A type of the second module, other than a reserved one, came second to a place that a type of
the first module came to first. -/
def Collides (s : ImportState) (ctx : Context) (m l : ModuleId) : Prop :=
  ∃ id t o, ((ctx.module l).typeDef id).isModuleType = false ∧ s.map.typeOf? l id = some t
    ∧ (s.map.sourcesOf t).head? = some (m, o)

variable {s s₁ : ImportState} {ctx : Context} {m l : ModuleId}

theorem Sound.mem_ids (hs : s.Sound ctx) {id t : TypeId} (ht : s.map.typeOf? m id = some t) :
    m ∈ ctx.registry.ids :=
  Registry.mem_ids.mpr (Registry.lt_of_type (hs.inputs ht))

theorem TellsConflicts.names_iff (h : s.TellsConflicts ctx) (hs : s.Sound ctx)
    (hctx : ctx.registry.Accepted) (hm : m ∈ ctx.registry.ids) (hl : l ∈ ctx.registry.ids)
    (hne : m ≠ l) :
    (∃ c ∈ s.conflicts, c.Names ctx m l) ↔ s.Collides ctx m l ∨ s.Collides ctx l m := by
  constructor
  · rintro ⟨c, hc, hnames⟩
    obtain ⟨⟨k, id⟩, -, htold⟩ := List.mem_filterMap.mp (h.subset hc)
    obtain ⟨hmod, t, ⟨f, o⟩, ht, hfirst, -, rfl⟩ := conflict?_eq_some_iff.mp htold
    have hk := hs.mem_ids ht
    have hf := hs.mem_ids (hs.sources.mp (List.mem_of_head? hfirst))
    rcases hnames with ⟨hkept, hmerged⟩ | ⟨hkept, hmerged⟩
    · obtain rfl := hctx.eq_of_name hf hm hkept
      obtain rfl := hctx.eq_of_name hk hl hmerged
      exact .inl ⟨id, t, o, hmod, ht, hfirst⟩
    · obtain rfl := hctx.eq_of_name hf hl hkept
      obtain rfl := hctx.eq_of_name hk hm hmerged
      exact .inr ⟨id, t, o, hmod, ht, hfirst⟩
  · have hreported : ∀ {m l : ModuleId}, m ≠ l → s.Collides ctx m l →
        ∃ c ∈ s.conflicts, c.keptFrom = (ctx.module m).name
          ∧ c.mergedFrom = (ctx.module l).name := by
      rintro m l hne ⟨id, t, o, hmod, ht, hfirst⟩
      have hdiff : (m, o) ≠ (l, id) := fun heq ↦ hne (congrArg Prod.fst heq)
      have hmem : (l, id) ∈ ctx.allTypes := Context.mem_allTypes_of_lt (hs.inputs ht)
      have htold : s.conflict? ctx (l, id) = some ⟨Module.qualifiedName s.target t,
          (ctx.module m).name, (ctx.module l).name⟩ :=
        conflict?_eq_some_iff.mpr ⟨hmod, t, (m, o), ht, hfirst, hdiff, rfl⟩
      exact ⟨_, h.symm.subset (List.mem_filterMap.mpr ⟨_, hmem, htold⟩), rfl, rfl⟩
    rintro (hcollides | hcollides)
    · obtain ⟨c, hc, hnames⟩ := hreported hne hcollides
      exact ⟨c, hc, .inl hnames⟩
    · obtain ⟨c, hc, hnames⟩ := hreported hne.symm hcollides
      exact ⟨c, hc, .inr hnames⟩

theorem LateFrame.collides_iff (h : s₁.LateFrame s) (hs₁ : s₁.Sound ctx) (hs : s.Sound ctx) :
    s.Collides ctx m l ↔ s₁.Collides ctx m l := by
  simp only [Collides, h.typeOf?_eq hs₁ hs, h.sourcesOf_eq]

end ImportState

/-! ## Members that are fused

All module-level fields stand in one place, so what holds of fields that share a place holds of
any two of them: they are fused exactly when they have one name. For methods the signature counts
as well, as the map carries it over. -/

/-- A field of the module-level type of a module. -/
def Context.IsModuleField (ctx : Context) (m : ModuleId) (f : FieldId) : Prop :=
  ∃ o, ((ctx.module m).typeDef o).isModuleType = true ∧ f ∈ ((ctx.module m).typeDef o).fields

/-- A method of the module-level type of a module that is no initializer. -/
def Context.IsModuleMethod (ctx : Context) (m : ModuleId) (d : MethodId) : Prop :=
  ((ctx.module m).method d).isInitializer = false
    ∧ ∃ o, ((ctx.module m).typeDef o).isModuleType = true
      ∧ d ∈ ((ctx.module m).typeDef o).methods

namespace ImportState

/-- Module-level members of two modules are mapped onto one member of the output. -/
inductive Fuses (s : ImportState) (ctx : Context) (m l : ModuleId) : Prop
  | field {f f' g} (hf : ctx.IsModuleField m f) (hf' : ctx.IsModuleField l f')
      (hg : s.map.fieldOf? m f = some g) (hg' : s.map.fieldOf? l f' = some g)
  | method {d d' g} (hd : ctx.IsModuleMethod m d) (hd' : ctx.IsModuleMethod l d')
      (hg : s.map.methodOf? m d = some g) (hg' : s.map.methodOf? l d' = some g)

/-- Module-level members of two modules cannot be told apart: they are fields of one name, or
methods of one name and a signature of which the map makes the same. -/
inductive Resemble (s : ImportState) (ctx : Context) (m l : ModuleId) : Prop
  | field {f f'} (hf : ctx.IsModuleField m f) (hf' : ctx.IsModuleField l f')
      (hname : ((ctx.module m).field f).name = ((ctx.module l).field f').name)
  | method {d d'} (hd : ctx.IsModuleMethod m d) (hd' : ctx.IsModuleMethod l d')
      (hname : ((ctx.module m).method d).name = ((ctx.module l).method d').name)
      (hparams : s.map.remapSigs? m ((ctx.module m).method d).params
        = s.map.remapSigs? l ((ctx.module l).method d').params)
      (hret : s.map.remapOption? m ((ctx.module m).method d).ret
        = s.map.remapOption? l ((ctx.module l).method d').ret)

/-- Modules whose module-level members are fused are named by a conflict. -/
def ReportsFusions (s : ImportState) (ctx : Context) : Prop :=
  ∀ m ∈ ctx.registry.ids, ∀ l ∈ ctx.registry.ids, m ≠ l → s.Fuses ctx m l →
    ∃ c ∈ s.conflicts, c.Names ctx m l

/-- What is known of module-level members and of the conflicts between their modules. -/
structure AccountsForModuleLevel (s : ImportState) (ctx : Context) : Prop where
  /-- Where links agree, members are fused exactly when they cannot be told apart. -/
  fused : ∀ {m l}, (ctx.module m).LinksAgree → (ctx.module l).LinksAgree →
    (s.Fuses ctx m l ↔ s.Resemble ctx m l)
  /-- Two modules are named by a conflict exactly when types of the two collide. -/
  named : ∀ {m l}, m ∈ ctx.registry.ids → l ∈ ctx.registry.ids → m ≠ l →
    ((∃ c ∈ s.conflicts, c.Names ctx m l) ↔ s.Collides ctx m l ∨ s.Collides ctx l m)
  /-- So fusions are reported exactly where types collide as well. -/
  reported : s.ReportsFusions ctx ↔ ∀ m ∈ ctx.registry.ids, ∀ l ∈ ctx.registry.ids, m ≠ l →
    s.Fuses ctx m l → s.Collides ctx m l ∨ s.Collides ctx l m

variable {s s₁ : ImportState} {ctx : Context} {m l : ModuleId}

theorem Looks.place_unique (h : s.Looks ctx) (hs : s.Sound ctx)
    (hnames : Module.NamesDistinct s.target) {o o' t t' : TypeId}
    (hmod : ((ctx.module m).typeDef o).isModuleType = true)
    (hmod' : ((ctx.module l).typeDef o').isModuleType = true)
    (ht : s.map.typeOf? m o = some t) (ht' : s.map.typeOf? l o' = some t') : t = t' :=
  hnames t t' (hs.typeOf?_lt ht) (hs.typeOf?_lt ht')
    ((h.reserved ht hmod).trans (h.reserved ht' hmod').symm)

section Fused

variable (himported : s₁.Imported ctx) (hctx : ctx.registry.Accepted)
include himported hctx

theorem exists_image_of_moduleField {f : FieldId} (hlinks : (ctx.module m).LinksAgree)
    (hf : ctx.IsModuleField m f) : ∃ g o t, s₁.map.fieldOf? m f = some (.definition g)
      ∧ ((ctx.module m).typeDef o).isModuleType = true ∧ s₁.FieldImage ctx m f g o t := by
  obtain ⟨o, hmod, hlisted⟩ := hf
  have ho := Module.lt_of_mem_list TypeDef.fields rfl hlisted
  obtain ⟨t, hfilled⟩ := himported.filled (Registry.lt_of_type ho) ho
  obtain ⟨handle, hentry⟩ := hfilled.fields f hlisted
  obtain ⟨g, o', t', rfl, himage⟩ := himported.faithful.fields hentry
  have hlt := Import.field_lt hctx hlisted
  have hsame : o' = o :=
    (hlinks.field_owner hlt himage.listed.listed).symm.trans (hlinks.field_owner hlt hlisted)
  exact ⟨g, o', t', hentry, hsame ▸ hmod, himage⟩

theorem exists_image_of_moduleMethod {d : MethodId} (hlinks : (ctx.module m).LinksAgree)
    (hd : ctx.IsModuleMethod m d) : ∃ g o t, s₁.map.methodOf? m d = some (.definition g)
      ∧ ((ctx.module m).typeDef o).isModuleType = true ∧ s₁.MethodImage ctx m d g o t := by
  obtain ⟨hother, o, hmod, hlisted⟩ := hd
  have ho := Module.lt_of_mem_list TypeDef.methods rfl hlisted
  obtain ⟨t, hfilled⟩ := himported.filled (Registry.lt_of_type ho) ho
  have hnow : Import.isFoldedLater ctx m o d = false := by
    simp [Import.isFoldedLater, hother]
  obtain ⟨handle, hentry⟩ := hfilled.methods d hlisted hnow
  obtain ⟨g, o', t', rfl, himage⟩ := himported.faithful.methods hentry
  have hlt := Import.method_lt hctx hlisted
  have hsame : o' = o :=
    (hlinks.method_owner hlt himage.listed.listed).symm.trans (hlinks.method_owner hlt hlisted)
  exact ⟨g, o', t', hentry, hsame ▸ hmod, himage⟩

variable (hmade : s₁.MembersMade ctx) (hlooks : s₁.Looks ctx)
  (hnames : Module.NamesDistinct s₁.target) (hlate : s₁.LateFrame s)
  (hlinks : (ctx.module m).LinksAgree) (hlinks' : (ctx.module l).LinksAgree)
include hmade hlooks hnames hlate hlinks hlinks'

/-- Module-level fields are mapped onto one field exactly when they have one name. -/
theorem share_field_iff {f f' : FieldId} (hf : ctx.IsModuleField m f)
    (hf' : ctx.IsModuleField l f') :
    (∃ g, s.map.fieldOf? m f = some g ∧ s.map.fieldOf? l f' = some g)
      ↔ ((ctx.module m).field f).name = ((ctx.module l).field f').name := by
  obtain ⟨g, o, t, hentry, hmod, himage⟩ := exists_image_of_moduleField himported hctx hlinks hf
  obtain ⟨g', o', t', hentry', hmod', himage'⟩ :=
    exists_image_of_moduleField himported hctx hlinks' hf'
  rw [hlate.fieldEntries, hlate.fieldEntries, hentry, hentry', ← himage.name, ← himage'.name]
  constructor
  · rintro ⟨_, heq, heq'⟩
    cases heq
    cases heq'
    rfl
  · intro hname
    have hplace : t = t' := hlooks.place_unique himported.sound hnames hmod hmod'
      himage.listed.place himage'.listed.place
    have hsame : g = g' := hmade.fields g g' himage.inRange himage'.inRange
      (by rw [himage.declaring, himage'.declaring, hplace]) hname
    exact ⟨_, rfl, hsame ▸ rfl⟩

/-- Module-level methods are mapped onto one method exactly when they have one name, and a signature
of which the map makes the same. -/
theorem share_method_iff (hg : s₁.Grows s) {d d' : MethodId} (hd : ctx.IsModuleMethod m d)
    (hd' : ctx.IsModuleMethod l d') :
    (∃ g, s.map.methodOf? m d = some g ∧ s.map.methodOf? l d' = some g)
      ↔ ((ctx.module m).method d).name = ((ctx.module l).method d').name
        ∧ s.map.remapSigs? m ((ctx.module m).method d).params
          = s.map.remapSigs? l ((ctx.module l).method d').params
        ∧ s.map.remapOption? m ((ctx.module m).method d).ret
          = s.map.remapOption? l ((ctx.module l).method d').ret := by
  obtain ⟨g, o, t, hentry, hmod, himage⟩ := exists_image_of_moduleMethod himported hctx hlinks hd
  obtain ⟨g', o', t', hentry', hmod', himage'⟩ :=
    exists_image_of_moduleMethod himported hctx hlinks' hd'
  rw [hlate.methodEntries, hlate.methodEntries, hentry, hentry', ← himage.name, ← himage'.name,
    hg.map.remapSigs? _ himage.params, hg.map.remapSigs? _ himage'.params,
    hg.map.remapOption? himage.ret, hg.map.remapOption? himage'.ret]
  constructor
  · rintro ⟨_, heq, heq'⟩
    cases heq
    cases heq'
    exact ⟨rfl, rfl, rfl⟩
  · rintro ⟨hname, hparams, hret⟩
    have hplace : t = t' := hlooks.place_unique himported.sound hnames hmod hmod'
      himage.listed.place himage'.listed.place
    have hsame : g = g' := hmade.methods g g' himage.inRange himage'.inRange
      (by rw [himage.declaring, himage'.declaring, hplace]) hname (Option.some.inj hparams)
      (Option.some.inj hret)
    exact ⟨_, rfl, hsame ▸ rfl⟩

/-- Where links agree, module-level members are fused exactly when they cannot be told apart. -/
theorem fuses_iff_resemble (hg : s₁.Grows s) : s.Fuses ctx m l ↔ s.Resemble ctx m l := by
  have hfields := fun {f f'} (hf : ctx.IsModuleField m f) (hf' : ctx.IsModuleField l f') ↦
    share_field_iff himported hctx hmade hlooks hnames hlate hlinks hlinks' hf hf'
  have hmethods := fun {d d'} (hd : ctx.IsModuleMethod m d) (hd' : ctx.IsModuleMethod l d') ↦
    share_method_iff himported hctx hmade hlooks hnames hlate hlinks hlinks' hg hd hd'
  constructor
  · rintro (⟨hf, hf', hentry, hentry'⟩ | ⟨hd, hd', hentry, hentry'⟩)
    · exact .field hf hf' ((hfields hf hf').mp ⟨_, hentry, hentry'⟩)
    · obtain ⟨hname, hparams, hret⟩ := (hmethods hd hd').mp ⟨_, hentry, hentry'⟩
      exact .method hd hd' hname hparams hret
  · rintro (⟨hf, hf', hname⟩ | ⟨hd, hd', hname, hparams, hret⟩)
    · obtain ⟨_, hentry, hentry'⟩ := (hfields hf hf').mpr hname
      exact .field hf hf' hentry hentry'
    · obtain ⟨_, hentry, hentry'⟩ := (hmethods hd hd').mpr ⟨hname, hparams, hret⟩
      exact .method hd hd' hentry hentry'

end Fused

end ImportState

/-- In every finished import, module-level members are fused when they cannot be told apart, and
what names their modules is a collision between other types. -/
theorem accountsForModuleLevel_of_finished {inputs : List Input} {ctx : Context} {s : ImportState}
    (hinputs : Registry.ofInputs inputs = .ok ctx.registry) (hdone : Import.Finished ctx s) :
    s.AccountsForModuleLevel ctx := by
  have hctx := (Registry.accepted_of_ofInputs hinputs).1
  obtain ⟨s₁, hrun, hlate⟩ := hdone.exists_run hctx
  obtain ⟨hsteps, himported⟩ := (Import.reaches_run hctx).of_ok hrun
  have hs₁ := himported.sound
  have hs := Import.LateStep.sound_steps hlate hs₁
  have hgrows := Import.LateStep.grows_steps hlate
  have hframe := Import.LateStep.lateFrame_steps hlate himported.placed
  have hnames := (Import.Step.placement_steps hsteps ctx.sound_startImport
    ctx.placement_startImport).names
  have hconflicts := Import.tellsConflicts_of_run hctx hrun
  have hnamed : ∀ {m l}, m ∈ ctx.registry.ids → l ∈ ctx.registry.ids → m ≠ l →
      ((∃ c ∈ s.conflicts, c.Names ctx m l) ↔ s.Collides ctx m l ∨ s.Collides ctx l m) := by
    intro m l hm hl hne
    rw [hframe.conflicts, hframe.collides_iff hs₁ hs, hframe.collides_iff hs₁ hs]
    exact hconflicts.names_iff hs₁ hctx hm hl hne
  have hmade := Import.membersMade_of_run hctx hrun
  have hlooks := Import.looks_of_run hctx hrun
  refine ⟨fun hlinks hlinks' ↦ ImportState.fuses_iff_resemble himported hctx hmade hlooks hnames
    hframe hlinks hlinks' hgrows, hnamed, ?_⟩
  constructor
  · exact fun h m hm l hl hne hfuses ↦ (hnamed hm hl hne).mp (h m hm l hl hne hfuses)
  · exact fun h m hm l hl hne hfuses ↦ (hnamed hm hl hne).mpr (h m hm l hl hne hfuses)

/-! ## A counter in two modules -/

/-- A program and a library that each have a counter of one name at module level, and other types
besides. -/
def counters (others : List TypeDef) : List Input :=
  let image (name : String) : Module :=
    { name
      types := { name := "<Module>", fields := [⟨0⟩] } :: others
      fields := [
        { name := "count", access := .public, isStatic := true, fieldType := .definition ⟨0⟩
          declaring := ⟨0⟩ }] }
  [{ isPrimary := true, module := image "App" }, { isPrimary := false, module := image "Lib" }]

/-- The link of the two, with nothing hidden. -/
def countersLink (others : List TypeDef) : Context where
  registry := ⟨counters others⟩
  policy := ⟨false, [], [], [], false⟩
  targetName := "App"

/-- What importing the two leaves. -/
def countersImported (others : List TypeDef) : ImportState :=
  Import.finalState (Import.run (countersLink others)) (countersLink others).startImport

/-- Where both modules have a public tool, the conflict about it names the two modules. -/
theorem accountsForModuleLevel_counters :
    Registry.ofInputs (counters [{ name := "Tool", visibility := .public }])
      = .ok (countersLink [{ name := "Tool", visibility := .public }]).registry
    ∧ Import.Finished (countersLink [{ name := "Tool", visibility := .public }])
      (countersImported [{ name := "Tool", visibility := .public }])
    ∧ (countersImported [{ name := "Tool", visibility := .public }]).AccountsForModuleLevel
      (countersLink [{ name := "Tool", visibility := .public }])
    ∧ (countersImported [{ name := "Tool", visibility := .public }]).conflicts
      = [⟨"Tool", "App", "Lib"⟩] := by
  have hinputs : Registry.ofInputs (counters [{ name := "Tool", visibility := .public }])
    = .ok (countersLink [{ name := "Tool", visibility := .public }]).registry := rfl
  have hdone : Import.Finished (countersLink [{ name := "Tool", visibility := .public }])
      (countersImported [{ name := "Tool", visibility := .public }]) :=
    .types (Import.eq_ok_of_succeeds (by decide +kernel))
  exact ⟨hinputs, hdone, accountsForModuleLevel_of_finished hinputs hdone, by decide +kernel⟩

/-- Without other types the two counters become one, and nothing is reported. -/
theorem not_reportsFusions_counters :
    Registry.ofInputs (counters []) = .ok (countersLink []).registry
    ∧ Import.Finished (countersLink []) (countersImported [])
    ∧ ¬(countersImported []).ReportsFusions (countersLink []) := by
  refine ⟨rfl, .types (Import.eq_ok_of_succeeds (by decide +kernel)), fun h ↦ ?_⟩
  have hmodule : ∀ m ∈ (countersLink []).registry.ids, (countersLink []).IsModuleField m ⟨0⟩ :=
    fun m hm ↦ ⟨⟨0⟩, by revert m; decide⟩
  have hown : (countersImported []).map.fieldOf? ⟨0⟩ ⟨0⟩ = some (.definition ⟨0⟩) := by
    decide +kernel
  have hother : (countersImported []).map.fieldOf? ⟨1⟩ ⟨0⟩ = some (.definition ⟨0⟩) := by
    decide +kernel
  have hfuses : (countersImported []).Fuses (countersLink []) ⟨0⟩ ⟨1⟩ :=
    .field (hmodule _ (by decide)) (hmodule _ (by decide)) hown hother
  obtain ⟨c, hc, -⟩ := h ⟨0⟩ (by decide) ⟨1⟩ (by decide) (by decide) hfuses
  have hnone : (countersImported []).conflicts = [] := by decide +kernel
  rw [hnone] at hc
  cases hc

end ModuleLinker
