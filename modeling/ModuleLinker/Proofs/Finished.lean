import ModuleLinker.Proofs.Import.Outcome
import ModuleLinker.Proofs.Stages

/-!
# Finished imports

When the types of all modules have been imported, every type has its place and every member its
counterpart. Folding initializers and resolving exports come after that: they find all types placed,
so they declare none, and they make no field and note nothing. What is said of places, fields and
notes may be said of either moment.
-/

namespace ModuleLinker

open Relation (ReflTransGen)

namespace ImportState

/-- Every type of every module has a place. -/
def Placed (s : ImportState) (ctx : Context) : Prop :=
  ∀ m (id : TypeId), id.index < (ctx.module m).types.length → ∃ t, s.map.typeOf? m id = some t

/-- What late stages leave alone. -/
structure LateFrame (s s' : ImportState) : Prop where
  sources : s'.map.sources = s.map.sources
  conflicts : s'.conflicts = s.conflicts
  fields : s'.target.fields = s.target.fields
  fieldEntries : ∀ m id, s'.map.fieldOf? m id = s.map.fieldOf? m id
  methodEntries : ∀ m id, s'.map.methodOf? m id = s.map.methodOf? m id

variable {s s' s'' : ImportState} {ctx : Context}

theorem Placed.mono (h : s.Placed ctx) (hg : s.Grows s') : s'.Placed ctx := fun m id hid ↦ by
  obtain ⟨t, ht⟩ := h m id hid
  exact ⟨t, hg.map.typeOf? ht⟩

theorem Imported.placed (h : s.Imported ctx) : s.Placed ctx := by
  intro m id hid
  obtain ⟨t, hfilled⟩ := h.filled (Registry.lt_of_type hid) hid
  exact ⟨t, hfilled.place⟩

namespace LateFrame

theorem refl (s : ImportState) : s.LateFrame s := ⟨rfl, rfl, rfl, fun _ _ ↦ rfl, fun _ _ ↦ rfl⟩

theorem trans (h : s.LateFrame s') (h' : s'.LateFrame s'') : s.LateFrame s'' where
  sources := h'.sources.trans h.sources
  conflicts := h'.conflicts.trans h.conflicts
  fields := h'.fields.trans h.fields
  fieldEntries m id := (h'.fieldEntries m id).trans (h.fieldEntries m id)
  methodEntries m id := (h'.methodEntries m id).trans (h.methodEntries m id)

theorem sourcesOf_eq (h : s.LateFrame s') (t : TypeId) :
    s'.map.sourcesOf t = s.map.sourcesOf t := by
  rw [SymbolMap.sourcesOf, h.sources]
  rfl

theorem typeOf?_eq (h : s.LateFrame s') (hs : s.Sound ctx) (hs' : s'.Sound ctx) (m : ModuleId)
    (id : TypeId) : s'.map.typeOf? m id = s.map.typeOf? m id := by
  refine Option.ext fun t ↦ ?_
  rw [← hs'.sources, ← hs.sources, h.sourcesOf_eq]

end LateFrame

end ImportState

namespace Import

open ImportState

variable {ctx : Context} {s s' : ImportState} {m : ModuleId}

theorem Declares.eq_of_placed (h : Declares ctx m s s') (hplaced : s.Placed ctx) : s' = s := by
  obtain ⟨hsteps, -⟩ := h
  induction hsteps with
  | refl => rfl
  | tail _ hstep ih =>
    subst ih
    cases hstep with
    | @declare p hfresh hfits =>
      obtain ⟨t, ht⟩ := hplaced m p.type hfits.inRange
      rw [SymbolMap.typeOf?, hfresh] at ht
      cases ht

theorem UseStep.lateFrame (h : UseStep ctx s s') (hplaced : s.Placed ctx) : s.LateFrame s' := by
  have hmembers := h.sameMembers
  have hfields : ∀ m id, s'.map.fieldOf? m id = s.map.fieldOf? m id := fun m id ↦ by
    rw [SymbolMap.fieldOf?, hmembers.fieldEntries]
    rfl
  have hframe : ∀ (hsources : s'.map.sources = s.map.sources)
      (hconflicts : s'.conflicts = s.conflicts), s.LateFrame s' := fun hsources hconflicts ↦
    ⟨hsources, hconflicts, hmembers.fields, hfields, hmembers.methodOf?_eq⟩
  rcases h.places with ⟨m, hdeclares⟩ | hplaces
  · rw [hdeclares.eq_of_placed hplaced]
    exact .refl s
  · rcases h.notes with ⟨m, hdeclares⟩ | ⟨hconflicts, -⟩
    · rw [hdeclares.eq_of_placed hplaced]
      exact .refl s
    · exact hframe hplaces.sources hconflicts

theorem LateStep.lateFrame (h : LateStep ctx s s') (hplaced : s.Placed ctx) : s.LateFrame s' := by
  have hmethods := h.sameWriters.entries
  cases h with
  | use h => exact h.lateFrame hplaced
  | moduleType =>
    refine ⟨rfl, rfl, ?_, fun _ _ ↦ rfl, hmethods⟩
    rcases s.target.ensureModuleType_cases with ⟨heq, -⟩ | ⟨shell, -, heq, -⟩
    · rw [heq]
    · rw [heq, Module.addType_tables]
  | setBody _ _ | addMethod _ | addExport _ => exact ⟨rfl, rfl, rfl, fun _ _ ↦ rfl, hmethods⟩
  | lead _ =>
    refine ⟨rfl, rfl, rfl, fun m id ↦ ?_, hmethods⟩
    rw [SymbolMap.fieldOf?, SymbolMap.find?_record_of_ne fun heq ↦ by cases heq]
    rfl
  | note hentries hsources _ =>
    refine ⟨hsources, rfl, rfl, fun m id ↦ ?_, hmethods⟩
    rw [SymbolMap.fieldOf?, SymbolMap.find?, hentries]
    rfl

theorem LateStep.lateFrame_steps (h : ReflTransGen (LateStep ctx) s s') (hplaced : s.Placed ctx) :
    s.LateFrame s' := by
  induction h with
  | refl => exact .refl s
  | tail hsteps hstep ih =>
    exact ih.trans (hstep.lateFrame (hplaced.mono (LateStep.grows_steps hsteps)))

theorem ExportStep.types_steps (h : ReflTransGen (ExportStep ctx) s s') (hplaced : s.Placed ctx) :
    s'.target.types = s.target.types := by
  induction h with
  | refl => rfl
  | tail hsteps hstep ih =>
    have hplaced' := hplaced.mono (LateStep.grows_steps (ExportStep.late_steps hsteps))
    rcases hstep.types with ⟨m, hdeclares⟩ | htypes
    · rwa [hdeclares.eq_of_placed hplaced']
    · exact htypes.trans ih

/-- Where no secondary module has an initializer, only exports are left after the types. -/
theorem exports_of_all (hctx : ctx.registry.Accepted) (hempty : secondaryInitializers ctx = [])
    (h : Import.all ctx ctx.startImport = .ok () s) :
    ∃ s₁, run ctx ctx.startImport = .ok () s₁ ∧ ReflTransGen (ExportStep ctx) s₁ s := by
  obtain ⟨_, s₁, hrun, h⟩ := bind_eq_ok h
  obtain ⟨_, s₂, hcombine, hresolve⟩ := bind_eq_ok h
  have hnothing : combineInitializers ctx s₁ = .ok () s₁ := by
    simp only [combineInitializers, hempty]
    rfl
  rw [hnothing] at hcombine
  cases hcombine
  exact ⟨s₁, hrun, ((reaches_resolveExports hctx (imported_of_run hctx hrun).sound).of_ok
    hresolve).1⟩

/-- An import is finished when the types of all modules have been imported, and when the stages that
come after that are done as well. -/
inductive Finished (ctx : Context) (s : ImportState) : Prop
  | types (h : run ctx ctx.startImport = .ok () s)
  | all (h : all ctx ctx.startImport = .ok () s)

/-- A finished import has imported the types, and made late steps only after that. -/
theorem Finished.exists_run (h : Finished ctx s) (hctx : ctx.registry.Accepted) :
    ∃ s₁, run ctx ctx.startImport = .ok () s₁ ∧ ReflTransGen (LateStep ctx) s₁ s := by
  cases h with
  | types h => exact ⟨s, h, .refl⟩
  | all h =>
    obtain ⟨s₁, hrun, hlate, -⟩ := late_of_all hctx h
    exact ⟨s₁, hrun, hlate⟩

end Import

end ModuleLinker
