import ModuleLinker.Proofs.Caches
import ModuleLinker.Proofs.Import.Calls
import ModuleLinker.Proofs.Import.Late
import ModuleLinker.Proofs.Import.Makers
import ModuleLinker.Proofs.Import.Placement

/-!
# Caches along an import

Every step of an import is what an output with caches can do: a type is entered under a name that is
free, references are interned, and whatever else changes the output is an edit. So caches that are
in step with the output before a step can be led to the output after it. And the output that is
left by an import, after any calls of a client and through all stages of a link, is one that has
been built with caches.

That is why no two types have one name and no two references are equal, at any moment. A name is
free or not by what the cache holds under it, so it does not matter in which container a type is
entered or what was renamed before.
-/

namespace ModuleLinker

open Relation (ReflTransGen)

/-! ## From one output to the next

The relation between two outputs leaves open which operations led from the one to the other. It
composes, so it can be followed along runs of steps of any kind. -/

namespace Target

/-- Caches in step with the one output can be led to the other. -/
def Carries (t t' : Target) : Prop :=
  ∀ c : CachedTarget, c.InStep → c.module = t →
    ∃ c', ReflTransGen CachedTarget.Step c c' ∧ c'.module = t'

variable {t t' t'' : Target}

theorem Carries.refl (t : Target) : t.Carries t := fun c _ hc ↦ ⟨c, .refl, hc⟩

theorem Carries.trans (h : t.Carries t') (h' : t'.Carries t'') : t.Carries t'' := by
  intro c hc ht
  obtain ⟨c', hsteps, ht'⟩ := h c hc ht
  obtain ⟨c'', hsteps', ht''⟩ := h' c' (hc.steps hsteps) ht'
  exact ⟨c'', hsteps.trans hsteps', ht''⟩

theorem Carries.addType {d : TypeDef}
    (hin : ∀ o, d.declaring = some o → o.index < t.types.length)
    (hfree : t.lookup? (t.nameIn d.declaring d.nspace d.name) = none) :
    t.Carries (t.addType d).2 := by
  rintro c hc rfl
  exact ⟨_, .single (.declare d hin ((hc.indexed.find?_eq _).trans hfree)), rfl⟩

theorem Carries.ensureModuleType (t : Target) : t.Carries t.ensureModuleType.2 := by
  rcases t.ensureModuleType_cases with ⟨heq, -⟩ | ⟨shell, hshell, heq, hname, hfree⟩
  · rw [heq]
    exact .refl t
  · rw [heq]
    exact .addType (fun o ho ↦ by cases hshell.declaring ho) (hname ▸ hfree)

theorem Carries.internTypeRef (t : Target) (r : TypeRef) : t.Carries (t.internTypeRef r).2 := by
  rintro c hc rfl
  exact ⟨_, .single (.internTypeRef r), congrArg Prod.snd (hc.plain_internTypeRef r)⟩

theorem Carries.internMemberRef (t : Target) (r : MemberRef) :
    t.Carries (t.internMemberRef r).2 := by
  rintro c hc rfl
  exact ⟨_, .single (.internMemberRef r), congrArg Prod.snd (hc.plain_internMemberRef r)⟩

theorem Carries.referAssembly (t : Target) (r : AssemblyRef) :
    t.Carries (t.referAssembly r).2 := by
  rintro c hc rfl
  exact ⟨_, .single (.referAssembly r), congrArg Prod.snd (hc.plain_referAssembly r)⟩

section Edit

variable (htypeRefs : t'.typeRefs = t.typeRefs) (hmemberRefs : t'.memberRefs = t.memberRefs)
  (hassemblyRefs : t'.assemblyRefs = t.assemblyRefs)
include htypeRefs hmemberRefs hassemblyRefs

theorem Carries.edit (hlabels : t'.types.map TypeDef.label = t.types.map TypeDef.label) :
    t.Carries t' := by
  rintro c - rfl
  exact ⟨_, .single (.edit t' hlabels htypeRefs hmemberRefs hassemblyRefs), rfl⟩

theorem Carries.of_grows (hg : Module.Grows t t') (htypes : t'.types.length = t.types.length) :
    t.Carries t' := by
  refine .edit htypeRefs hmemberRefs hassemblyRefs ?_
  refine List.ext_getElem (by simpa using htypes) fun i hi hi' ↦ ?_
  rw [List.length_map] at hi hi'
  have houtside := congrArg TypeDef.label (hg.typeDef (t := ⟨i⟩) hi')
  have hlabel : (t'.typeDef ⟨i⟩).label = (t.typeDef ⟨i⟩).label := houtside
  simpa [Module.typeDef, hi, hi'] using hlabel

end Edit

end Target

/-! ## Steps

A step touches the columns of the caches in one of three ways: it enters a type under a free name,
it refers to something, or it leaves them as they are. Bodies, bases and members are of the third
kind. -/

open Target (Carries)

theorem ImportState.carries_declareOne {s : ImportState} {ctx : Context} {m : ModuleId}
    {p : Pending} (hin : p.Within ctx m s) :
    s.target.Carries (s.declareOne ctx m p).2.target := by
  rw [target_declareOne]
  rcases s.place_cases ctx m p with hshares | ⟨shell, henters⟩
  · rw [hshares.target]
    exact .refl _
  · rw [henters.target]
    exact .addType (henters.declaring_lt hin) henters.free

theorem ImportState.carries_of_steps {R : ImportState → ImportState → Prop} {ctx : Context}
    (hsound : ∀ {s s'}, R s s' → s.Sound ctx → s'.Sound ctx)
    (hcarries : ∀ {s s'}, R s s' → s.Sound ctx → s.target.Carries s'.target) {s s' : ImportState}
    (h : ReflTransGen R s s') (hs : s.Sound ctx) : s.target.Carries s'.target :=
  Sound.keeps (P := fun s' ↦ s.target.Carries s'.target) hsound
    (fun hstep hs hbefore ↦ hbefore.trans (hcarries hstep hs)) h hs (.refl _)

namespace Import

variable {ctx : Context} {s s' : ImportState} {m : ModuleId}

theorem DeclareStep.carries (h : DeclareStep ctx m s s') (hs : s.Sound ctx) :
    s.target.Carries s'.target := by
  cases h with
  | declare _ hfits => exact ImportState.carries_declareOne (hs.within hfits)

theorem DeclareStep.carries_steps (h : ReflTransGen (DeclareStep ctx m) s s') (hs : s.Sound ctx) :
    s.target.Carries s'.target :=
  ImportState.carries_of_steps DeclareStep.sound DeclareStep.carries h hs

theorem UseStep.carries (h : UseStep ctx s s') (hs : s.Sound ctx) :
    s.target.Carries s'.target := by
  cases h with
  | sign h =>
    cases h with
    | place h =>
      cases h with
      | declare h => exact DeclareStep.carries_steps h.steps hs
      | refer _ _ => exact .referAssembly _ _
      | intern _ => exact .internTypeRef _ _
    | resolve _ _ _ _ _ => exact .refl _
  | intern _ => exact .internMemberRef _ _
  | resolve _ _ _ _ => exact .refl _

theorem Step.carries (h : Step ctx s s') (hs : s.Sound ctx) : s.target.Carries s'.target := by
  have hg := h.grows.target
  cases h with
  | shape h =>
    cases h with
    | visit _ _ => exact .refl _
    | fill h =>
      cases h with
      | sign h => exact (UseStep.sign h).carries hs
      | hierarchy _ _ _ | addField _ _ _ _ | addMethod _ _ _ _ _ _ =>
        exact .of_grows rfl rfl rfl hg (by simp)
      | shareField _ _ _ | shareMethod _ _ _ _ _ _ => exact .refl _
  | copy h =>
    cases h with
    | use h => exact h.carries hs
    | visit _ _ => exact .refl _
    | setBody _ _ _ _ => exact .of_grows rfl rfl rfl hg rfl

theorem LateStep.carries (h : LateStep ctx s s') (hs : s.Sound ctx) :
    s.target.Carries s'.target := by
  have hg := h.grows.target
  cases h with
  | use h => exact h.carries hs
  | moduleType => exact .ensureModuleType _
  | addMethod _ => exact .of_grows rfl rfl rfl hg (by simp)
  | setBody _ _ | addExport _ => exact .of_grows rfl rfl rfl hg rfl
  | lead _ | note _ _ _ => exact .refl _

theorem LateStep.carries_steps (h : ReflTransGen (LateStep ctx) s s') (hs : s.Sound ctx) :
    s.target.Carries s'.target :=
  ImportState.carries_of_steps LateStep.sound LateStep.carries h hs

end Import

/-! ## Calls -/

namespace CallStep

variable {ctx : Context} {s s' : ImportState}

theorem carries (h : CallStep ctx s s') (hs : s.Sound ctx) : s.target.Carries s'.target := by
  cases h with
  | step h => exact h.carries hs
  | enter _ hin => exact ImportState.carries_declareOne hin

theorem carries_steps (h : ReflTransGen (CallStep ctx) s s') (hs : s.Sound ctx) :
    s.target.Carries s'.target :=
  ImportState.carries_of_steps CallStep.sound CallStep.carries h hs

end CallStep

/-! ## Outputs -/

/-- The caches of an import that has not begun. -/
def Context.startCaches (ctx : Context) : CachedTarget :=
  .start ctx.targetName ctx.registry.primaryModule

/-- An output can be built with caches, and whichever way it has been built with them, they find
what stands in its tables, and answer as searches would. -/
structure Target.Built (t : Target) (start : CachedTarget) : Prop where
  caches : ∃ c, ReflTransGen CachedTarget.Step start c ∧ c.module = t
  indexed : ∀ c, ReflTransGen CachedTarget.Step start c → c.module = t →
    c.toIndexedTarget.Reached
  exact : ∀ c, ReflTransGen CachedTarget.Step start c → c.module = t → c.Exact
  actsAlike : ∀ c, ReflTransGen CachedTarget.Step start c → c.module = t → c.ActsAlike

namespace Target.Carries

variable {ctx : Context} {t : Target} (h : ctx.startImport.target.Carries t)
include h

/-- An import leads to no output that could not be built with caches. -/
theorem built : t.Built ctx.startCaches := by
  have hstart : ctx.startCaches.InStep := .start _ _
  exact ⟨h ctx.startCaches hstart rfl, fun c hc _ ↦ CachedTarget.Step.reached_steps hc,
    fun c hc _ ↦ (hstart.steps hc).exact, fun c hc _ ↦ (hstart.steps hc).actsAlike⟩

theorem exists_inStep : ∃ c : CachedTarget, c.InStep ∧ c.module = t := by
  have hstart : ctx.startCaches.InStep := .start _ _
  obtain ⟨c, hsteps, hc⟩ := h ctx.startCaches hstart rfl
  exact ⟨c, hstart.steps hsteps, hc⟩

theorem namesDistinct : Module.NamesDistinct t := by
  obtain ⟨c, hc, rfl⟩ := h.exists_inStep
  exact hc.namesDistinct

theorem nodup_typeRefs : t.typeRefs.Nodup := by
  obtain ⟨c, hc, rfl⟩ := h.exists_inStep
  exact hc.typeRefs.nodup

theorem nodup_memberRefs : t.memberRefs.Nodup := by
  obtain ⟨c, hc, rfl⟩ := h.exists_inStep
  exact hc.memberRefs.nodup

end Target.Carries

end ModuleLinker
