import ModuleLinker.Proofs.Import.Combine
import ModuleLinker.Proofs.Import.Emit

/-!
# The stages of a link

A link that succeeds has accepted its inputs, has run an import with what was asked for, and has
finished what the import left. What is said about a link is said about these stages.
-/

namespace ModuleLinker

open Relation (ReflTransGen)

namespace Import

variable {ctx : Context} {s : ImportState}

/-- After the import of types come late steps only, and of the methods only the one changes that the
initializers are folded into. -/
theorem late_of_all (hctx : ctx.registry.Accepted)
    (h : Import.all ctx ctx.startImport = .ok () s) :
    ∃ s₁, Import.run ctx ctx.startImport = .ok () s₁ ∧ ReflTransGen (LateStep ctx) s₁ s
      ∧ CombineEffect ctx s₁ s := by
  obtain ⟨_, s₁, hrun, h⟩ := bind_eq_ok h
  obtain ⟨_, s₂, hcombine, hresolve⟩ := bind_eq_ok h
  have himported := imported_of_run hctx hrun
  obtain ⟨hfolds, heffect⟩ := (reaches_combineInitializers hctx himported
    (blocks_of_run hctx hrun)).of_ok hcombine
  have hs₂ := FoldStep.late_steps hfolds
  have hsound₂ := LateStep.sound_steps hs₂ himported.sound
  obtain ⟨hsteps, -⟩ := (reaches_resolveExports hctx hsound₂).of_ok hresolve
  have hs := ExportStep.late_steps hsteps
  obtain ⟨hmethods, hblocks⟩ := ExportStep.frame_steps hsteps
  exact ⟨s₁, hrun, hs₂.trans hs, heffect.of_frame (LateStep.grows_steps hs) hmethods hblocks⟩

/-- An import that succeeds leaves a sound state. -/
theorem sound_of_all (hctx : ctx.registry.Accepted)
    (h : Import.all ctx ctx.startImport = .ok () s) : s.Sound ctx := by
  obtain ⟨s₁, hrun, hlate, -⟩ := late_of_all hctx h
  exact LateStep.sound_steps hlate (imported_of_run hctx hrun).sound

theorem exists_resolveExports (hctx : ctx.registry.Accepted)
    (h : Import.all ctx ctx.startImport = .ok () s) :
    ∃ s₂, s₂.Sound ctx ∧ ctx.startImport.SameExports s₂ ∧ resolveExports ctx s₂ = .ok () s := by
  obtain ⟨_, s₁, hrun, h⟩ := bind_eq_ok h
  obtain ⟨_, s₂, hcombine, hresolve⟩ := bind_eq_ok h
  have himported := imported_of_run hctx hrun
  have hsame : ctx.startImport.SameExports s₁ :=
    .of_steps (ReflTransGen.mono (fun _ _ ↦ Step.sameExports) _ _ ((reaches_run hctx).of_ok hrun).1)
  have hfolds := ((reaches_combineInitializers hctx himported
    (blocks_of_run hctx hrun)).of_ok hcombine).1
  exact ⟨s₂, FoldStep.sound_steps hfolds himported.sound,
    hsame.trans (FoldStep.exports_steps hfolds), hresolve⟩

end Import

/-- A link went through a context and the state of an import, and had a result. -/
structure LinkedThrough (settings : Settings) (inputs : List Input) (ctx : Context)
    (s : ImportState) (r : Linked) : Prop where
  inputs : Registry.ofInputs inputs = .ok ctx.registry
  runtimes : ctx.registry.checkRuntimes = .ok ()
  settings : Context.ofSettings settings ctx.registry = .ok ctx
  imported : Import.all ctx ctx.startImport = .ok () s
  module : r.module = { s.finish ctx with mvid := some (mvidOfHash ctx.registry.combinedHash) }
  report : r.report = s.report ctx

/-- Finishing an import changes no type: merged resources are no types, and both revisions change
instructions only. -/
@[simp] theorem ImportState.types_finish (s : ImportState) (ctx : Context) :
    (s.finish ctx).types = s.target.types := by
  change (applyOffsets _ _ _).2.types = _
  unfold applyOffsets
  split <;> rfl

theorem LinkedThrough.typeDef_eq {settings : Settings} {inputs : List Input} {ctx : Context}
    {s : ImportState} {r : Linked} (h : LinkedThrough settings inputs ctx s r) (t : TypeId) :
    r.module.typeDef t = Module.typeDef s.target t := by
  rw [h.module]
  exact Module.typeDef_congr (s.types_finish ctx) t

theorem registry_of_ofSettings {settings : Settings} {registry : Registry} {ctx : Context}
    (h : Context.ofSettings settings registry = .ok ctx) : ctx.registry = registry := by
  obtain ⟨policy, -, hpolicy⟩ := bind_eq_ok_iff.mp h
  cases hpolicy
  rfl

/-- A link succeeds when each of its stages does. -/
theorem link_eq_ok_iff {settings : Settings} {inputs : List Input} {r : Linked} :
    link settings inputs = .ok r ↔ ∃ ctx s, LinkedThrough settings inputs ctx s r := by
  constructor
  · intro h
    obtain ⟨registry, hinputs, h⟩ := bind_eq_ok_iff.mp h
    obtain ⟨_, hruntimes, h⟩ := bind_eq_ok_iff.mp h
    obtain ⟨ctx, hctx, h⟩ := bind_eq_ok_iff.mp h
    obtain rfl := registry_of_ofSettings hctx
    cases hall : EStateM.run (Import.all ctx) ctx.startImport with
    | error e s =>
      rw [hall] at h
      cases h
    | ok u s =>
      rw [hall] at h
      cases h
      exact ⟨ctx, s, hinputs, hruntimes, hctx, hall, rfl, rfl⟩
  · rintro ⟨ctx, s, h⟩
    have hall : EStateM.run (Import.all ctx) ctx.startImport = .ok () s := h.imported
    refine bind_eq_ok_iff.mpr ⟨_, h.inputs, bind_eq_ok_iff.mpr ⟨_, h.runtimes, ?_⟩⟩
    refine bind_eq_ok_iff.mpr ⟨_, h.settings, ?_⟩
    rw [hall]
    obtain ⟨module, report⟩ := r
    obtain ⟨-, -, -, -, rfl, rfl⟩ := h
    rfl

theorem LinkedThrough.unique {settings : Settings} {inputs : List Input} {ctx ctx' : Context}
    {s s' : ImportState} {r r' : Linked} (h : LinkedThrough settings inputs ctx s r)
    (h' : LinkedThrough settings inputs ctx' s' r') : ctx = ctx' ∧ s = s' := by
  have hregistry := Except.ok.inj (h.inputs.symm.trans h'.inputs)
  have hsettings := h.settings
  rw [hregistry, h'.settings] at hsettings
  obtain rfl := Except.ok.inj hsettings
  obtain ⟨-, rfl⟩ := EStateM.Result.ok.inj (h.imported.symm.trans h'.imported)
  exact ⟨rfl, rfl⟩

/-- Where running a link shows that it has a result with a property, it does. -/
theorem exists_link_of_decide (settings : Settings) (inputs : List Input) {P : Linked → Prop}
    [DecidablePred P] (h : (link settings inputs).toOption.any (fun r ↦ decide (P r)) = true) :
    ∃ r, link settings inputs = .ok r ∧ P r := by
  cases hlink : link settings inputs with
  | error e =>
    rw [hlink] at h
    cases h
  | ok r =>
    rw [hlink] at h
    exact ⟨r, rfl, of_decide_eq_true h⟩

/-- Its identity aside, the output of a link is what finishing an import makes of it. -/
theorem link_eq_ok {settings : Settings} {inputs : List Input} {r : Linked}
    (h : link settings inputs = .ok r) : ∃ ctx s mvid,
      Registry.ofInputs inputs = .ok ctx.registry
        ∧ Import.all ctx ctx.startImport = .ok () s ∧ r.module = { s.finish ctx with mvid } := by
  obtain ⟨ctx, s, hthrough⟩ := link_eq_ok_iff.mp h
  exact ⟨ctx, s, _, hthrough.inputs, hthrough.imported, hthrough.module⟩

end ModuleLinker
