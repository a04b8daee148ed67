import ModuleLinker.Proofs.Homomorphism
import ModuleLinker.Proofs.Import.Placement
import ModuleLinker.Proofs.Stages

/-!
# What stays visible

Hiding is exact where a type decides its place: the place has the visibility of the input type that
came to it first, hidden if the policy hides that type and unchanged if it does not. A hidden type
always decides its own place, so nothing that is hidden shows, and the primary keeps its types,
their visibility and their names.

A type that is kept public may come second to a place. Then it shows exactly when the type that came
first does: the place of a type that was hidden, or never public, stays as it is.
-/

namespace ModuleLinker

/-! ## Hiding is exact

A type that is hidden never shares a place that is there, so what it came to is a place of its own
with the visibility that hiding gives. A type that is not hidden may come second to a place, and
then it decides nothing. -/

namespace ImportState

/-- Types are hidden exactly where the policy says so. The reserved types are not looked at: they
share one place, whatever is said about them. -/
structure HidesExactly (s : ImportState) (ctx : Context) : Prop where
  /-- The type that came to a place first decides its visibility. -/
  decided : ∀ {t m id}, (s.map.sourcesOf t).head? = some (m, id) →
    ((ctx.module m).typeDef id).isModuleType = false →
    (s.target.typeDef t).visibility =
      if ctx.internalizesType m id then ((ctx.module m).typeDef id).visibility.internalized
      else ((ctx.module m).typeDef id).visibility
  /-- A hidden type comes first to its place, which does not show. -/
  hidden : ∀ m ∈ ctx.registry.ids, ∀ id ∈ (ctx.module m).typeIds,
    ((ctx.module m).typeDef id).isModuleType = false → ctx.internalizesType m id = true →
    ∃ t, s.map.typeOf? m id = some t ∧ (s.map.sourcesOf t).head? = some (m, id)
      ∧ (s.target.typeDef t).visibility.isPublic = false
  /-- A type of the primary comes first to its place, shows as it did, and is found by its name. -/
  primary : ∀ {p}, ctx.registry.primary? = some p → (ctx.module p).LinksAgree →
    (ctx.module p).NamesDistinct → ∀ id ∈ (ctx.module p).typeIds,
    ((ctx.module p).typeDef id).isModuleType = false →
    ∃ t, s.map.typeOf? p id = some t ∧ (s.map.sourcesOf t).head? = some (p, id)
      ∧ (s.target.typeDef t).visibility = ((ctx.module p).typeDef id).visibility
      ∧ s.target.lookup? ((ctx.module p).qualifiedName id) = some t

end ImportState

/-- Nothing of the primary is hidden. -/
theorem Context.internalizesType_primary {ctx : Context} {p : ModuleId}
    (hp : ctx.registry.primary? = some p) (id : TypeId) : ctx.internalizesType p id = false := by
  simp [internalizesType, internalizes, Registry.isPrimary, hp, Policy.hidesType_eq,
    Policy.hidesName]

/-- Importing hides exactly what the policy hides. -/
theorem hidesExactly_of_run {inputs : List Input} {ctx : Context} {s : ImportState}
    (hinputs : Registry.ofInputs inputs = .ok ctx.registry)
    (hrun : Import.run ctx ctx.startImport = .ok () s) : s.HidesExactly ctx := by
  have hctx := (Registry.accepted_of_ofInputs hinputs).1
  obtain ⟨hsteps, himported⟩ := (Import.reaches_run hctx).of_ok hrun
  have hplacement := Import.Step.placement_steps hsteps ctx.sound_startImport
    ctx.placement_startImport
  refine ⟨hplacement.visibility, fun m hm id hid hmod hhide ↦ ?_,
    fun {p} hp hlinks hnames id hid hmod ↦ ?_⟩
  · obtain ⟨t, hfilled⟩ := himported.filled (Registry.mem_ids.mp hm) (Module.mem_typeIds.mp hid)
    have hfirst := hplacement.hidden hfilled.place hhide hmod
    refine ⟨t, hfilled.place, hfirst, ?_⟩
    rw [hplacement.visibility hfirst hmod, Context.shownAs, if_pos hhide]
    exact Visibility.isPublic_internalized _
  · obtain ⟨t, ht, hfirst, hname⟩ := Import.leads_of_run hctx hp (hlinks.mem_nested_iff hctx)
      hnames hrun id (Module.mem_typeIds.mp hid)
    refine ⟨t, ht, hfirst, ?_, ?_⟩
    · rw [hplacement.visibility hfirst hmod, Context.shownAs, ctx.internalizesType_primary hp]
      rfl
    · rw [← hname]
      exact Target.lookup?_qualifiedName hplacement.names (himported.sound.typeOf?_lt ht)

/-- A program and two libraries that each have a public type of one name. In one of the libraries
and the program it has another one inside, and that library has a type that it does not list. -/
def rivalTypes : List Input :=
  [{ isPrimary := true
     module :=
      { name := "App"
        types := [
          { nspace := "Kit", name := "Tool", visibility := .public, nested := [⟨1⟩] },
          { name := "Part", visibility := .nestedPublic, declaring := some ⟨0⟩ }] } },
   { isPrimary := false
     module :=
      { name := "Lib"
        types := [
          { nspace := "Kit", name := "Tool", visibility := .public, nested := [⟨1⟩] },
          { name := "Part", visibility := .nestedPublic, declaring := some ⟨0⟩ },
          { name := "Loose", visibility := .nestedPublic, declaring := some ⟨0⟩ }] } },
   { isPrimary := false
     module :=
      { name := "Open", types := [{ nspace := "Kit", name := "Tool", visibility := .public }] } }]

/-- The link of the three with the types of the first library hidden. -/
def rivalTypesLink : Context where
  registry := ⟨rivalTypes⟩
  policy := ⟨true, [], ["Open"], [], false⟩
  targetName := "App"

/-- What importing the three leaves. -/
def rivalTypesImported : ImportState :=
  Import.finalState (Import.run rivalTypesLink) rivalTypesLink.startImport

/-- The hidden types have places of their own, in a type with a new name. The type of the other
library shares the place of the program's. -/
theorem hidesExactly_rivalTypes : Registry.ofInputs rivalTypes = .ok rivalTypesLink.registry
    ∧ Import.run rivalTypesLink rivalTypesLink.startImport = .ok () rivalTypesImported
    ∧ rivalTypesImported.HidesExactly rivalTypesLink
    ∧ (rivalTypesLink.module ⟨0⟩).LinksAgree ∧ (rivalTypesLink.module ⟨0⟩).NamesDistinct
    ∧ rivalTypesImported.target.types.map (fun t ↦ (t.name, t.visibility))
      = [("Tool", .public), ("Part", .nestedPublic), ("<Lib>Tool", .notPublic),
        ("Part", .nestedAssembly), ("Loose", .nestedAssembly)]
    ∧ rivalTypesImported.map.sourcesOf ⟨0⟩ = [(⟨0⟩, ⟨0⟩), (⟨2⟩, ⟨0⟩)] := by
  have hinputs : Registry.ofInputs rivalTypes = .ok rivalTypesLink.registry := rfl
  have hrun : Import.run rivalTypesLink rivalTypesLink.startImport = .ok () rivalTypesImported :=
    Import.eq_ok_of_succeeds (by decide +kernel)
  refine ⟨hinputs, hrun, hidesExactly_of_run hinputs hrun, ?_, ?_, ?_, ?_⟩
  all_goals decide +kernel

/-! ## What is kept shows where it decides

A type that is kept may be mapped onto one that was hidden, if that came first and found its name
free. Then it does not show, whatever the policy says of it. -/

/-- An input type shows, and is not hidden. -/
structure Context.Keeps (ctx : Context) (m : ModuleId) (id : TypeId) : Prop where
  isPublic : ((ctx.module m).typeDef id).visibility.isPublic = true
  kept : ctx.internalizesType m id = false

theorem Context.isPublic_shownAs_iff {ctx : Context} {m : ModuleId} {id : TypeId} :
    (ctx.shownAs m id).isPublic = true ↔ ctx.Keeps m id := by
  unfold shownAs
  constructor
  · intro h
    split at h
    · rw [Visibility.isPublic_internalized] at h
      cases h
    · next hkept => exact ⟨h, by simpa using hkept⟩
  · rintro ⟨hpublic, hkept⟩
    rwa [hkept]

/-- In the output of a link every type that is kept has a place that shows. -/
def KeepsVisible (settings : Settings) (inputs : List Input) : Prop :=
  ∀ ctx s r, LinkedThrough settings inputs ctx s r →
    ∀ m ∈ ctx.registry.ids, ∀ id ∈ (ctx.module m).typeIds,
      ((ctx.module m).typeDef id).isModuleType = false → ctx.Keeps m id →
      ∃ t, s.map.typeOf? m id = some t ∧ (r.module.typeDef t).visibility.isPublic = true

/-- The place of a type shows exactly when the type that came to it first is kept. -/
def ImportState.ShowsByFirst (s : ImportState) (ctx : Context) (target : Module) : Prop :=
  ∀ m ∈ ctx.registry.ids, ∀ id ∈ (ctx.module m).typeIds,
    ((ctx.module m).typeDef id).isModuleType = false →
    ∃ t l o, s.map.typeOf? m id = some t ∧ (s.map.sourcesOf t).head? = some (l, o)
      ∧ ((target.typeDef t).visibility.isPublic = true ↔ ctx.Keeps l o)

/-- In every output a place shows by the type that came to it first. So a type that is kept shows
unless it shares the place of one that was hidden or never public. -/
theorem showsByFirst_of_link {settings : Settings} {inputs : List Input} {r : Linked}
    (h : link settings inputs = .ok r) :
    ∃ ctx s, LinkedThrough settings inputs ctx s r ∧ s.ShowsByFirst ctx r.module := by
  obtain ⟨ctx, s, hthrough⟩ := link_eq_ok_iff.mp h
  have hctx := (Registry.accepted_of_ofInputs hthrough.inputs).1
  obtain ⟨s₁, hrun, hlate, -⟩ := Import.late_of_all hctx hthrough.imported
  obtain ⟨hsteps, himported⟩ := (Import.reaches_run hctx).of_ok hrun
  have hplacement := Import.Step.placement_steps hsteps ctx.sound_startImport
    ctx.placement_startImport
  have hgrows := Import.LateStep.grows_steps hlate
  refine ⟨ctx, s, hthrough, fun m hm id hid hmod ↦ ?_⟩
  obtain ⟨t, hfilled⟩ := himported.filled (Registry.mem_ids.mp hm) (Module.mem_typeIds.mp hid)
  have hne := himported.sound.sourcesOf_ne_nil hfilled.place
  obtain ⟨⟨l, o⟩, hfirst⟩ := Option.ne_none_iff_exists'.mp (mt List.head?_eq_none_iff.mp hne)
  refine ⟨t, l, o, hgrows.map.typeOf? hfilled.place, ?_, ?_⟩
  · rw [hgrows.head?_sourcesOf hne, hfirst]
  · -- nothing after the import of types changes what shows
    rw [hthrough.typeDef_eq, hgrows.visibility_eq (himported.sound.typeOf?_lt hfilled.place),
      hplacement.visibility hfirst (hplacement.apart hfilled.place hmod hfirst),
      Context.isPublic_shownAs_iff]

/-- Hide the types of all libraries but the one that is open. -/
def hideAllButOpen : Settings where
  internalize := { enabled := true, excludes := ["Open"] }

/-- The type of the open library shares the place of the program's, which shows. -/
theorem showsByFirst_rivalTypes : ∃ r, link hideAllButOpen rivalTypes = .ok r
    ∧ ∃ ctx s, LinkedThrough hideAllButOpen rivalTypes ctx s r ∧ s.ShowsByFirst ctx r.module := by
  have hok : (link hideAllButOpen rivalTypes).isOk = true := by decide +kernel
  cases h : link hideAllButOpen rivalTypes with
  | error e =>
    rw [h] at hok
    cases hok
  | ok r => exact ⟨r, rfl, showsByFirst_of_link h⟩

/-- The two libraries without the program's types. -/
def rivalLibraries : List Input :=
  [{ isPrimary := true, module := { name := "App" } },
   { isPrimary := false
     module :=
      { name := "Lib", types := [{ nspace := "Kit", name := "Tool", visibility := .public }] } },
   { isPrimary := false
     module :=
      { name := "Open", types := [{ nspace := "Kit", name := "Tool", visibility := .public }] } }]

/-- The link of these with the types of the first library hidden. -/
def rivalLibrariesLink : Context where
  registry := ⟨rivalLibraries⟩
  policy := ⟨true, [], ["Open"], [], false⟩
  targetName := "App"

/-- The hidden type comes first and finds its name free, so the public one that is kept is merged
onto it and does not show. -/
theorem not_keepsVisible_rivalLibraries : ¬KeepsVisible hideAllButOpen rivalLibraries := by
  intro h
  let s := Import.finalState (Import.all rivalLibrariesLink) rivalLibrariesLink.startImport
  have hall : Import.all rivalLibrariesLink rivalLibrariesLink.startImport = .ok () s :=
    Import.eq_ok_of_succeeds (by decide +kernel)
  have hthrough : LinkedThrough hideAllButOpen rivalLibraries rivalLibrariesLink s ⟨_, _⟩ :=
    ⟨rfl, rfl, rfl, hall, rfl, rfl⟩
  have hkeeps : rivalLibrariesLink.Keeps ⟨2⟩ ⟨0⟩ := ⟨rfl, by decide +kernel⟩
  obtain ⟨t, ht, hshows⟩ := h _ _ _ hthrough ⟨2⟩ (by decide) ⟨0⟩ (by decide) rfl hkeeps
  have hplace : s.map.typeOf? ⟨2⟩ ⟨0⟩ = some ⟨0⟩ := by decide +kernel
  rw [hplace] at ht
  cases ht
  have hhidden : (Module.typeDef s.target ⟨0⟩).visibility = .notPublic := by decide +kernel
  rw [hthrough.typeDef_eq, hhidden] at hshows
  cases hshows

end ModuleLinker
