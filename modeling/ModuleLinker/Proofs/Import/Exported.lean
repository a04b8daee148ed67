import ModuleLinker.Import.Exports
import ModuleLinker.Proofs.Import.Reaches
import ModuleLinker.Proofs.Import.Step

/-!
# What leaves exports alone

Placing types, carrying signatures and operands over, filling types in and copying bodies have
nothing to do with exports: the exports of the output, what became of those of the inputs, and which
of them are resolved, all stay as they are. For the parts that resolving an export is made of this
is so whatever the state is like that they begin with.
-/

namespace ModuleLinker

open Relation (ReflTransGen)

namespace ImportState

/-- The exports of the output, the entries of exports and the resolved exports are the same. -/
structure SameExports (s s' : ImportState) : Prop where
  exported : s'.target.exportedTypes = s.target.exportedTypes
  resolved : s'.map.resolved = s.map.resolved
  entries : ∀ m qualified,
    s'.map.find? m (.export qualified) = s.map.find? m (.export qualified)

namespace SameExports

variable {s s' s'' : ImportState}

theorem refl (s : ImportState) : s.SameExports s := ⟨rfl, rfl, fun _ _ ↦ rfl⟩

theorem trans (h : s.SameExports s') (h' : s'.SameExports s'') : s.SameExports s'' where
  exported := h'.exported.trans h.exported
  resolved := h'.resolved.trans h.resolved
  entries m qualified := (h'.entries m qualified).trans (h.entries m qualified)

theorem of_steps (h : ReflTransGen SameExports s s') : s.SameExports s' := by
  induction h with
  | refl => exact refl s
  | tail _ hstep ih => exact ih.trans hstep

theorem of_target {t : Target} (h : t.exportedTypes = s.target.exportedTypes) :
    s.SameExports { s with target := t } :=
  ⟨h, rfl, fun _ _ ↦ rfl⟩

theorem of_record {m : ModuleId} {symbol : Symbol} {c : Counterpart}
    (hne : ∀ qualified, symbol ≠ .export qualified) :
    s.SameExports { s with map := s.map.record m symbol c } :=
  ⟨rfl, rfl, fun _ qualified ↦
    SymbolMap.find?_record_of_ne (fun heq ↦ hne qualified (congrArg Prod.snd heq).symm) _⟩

end SameExports

/-! ## Placing types -/

variable (s : ImportState) (ctx : Context) (m : ModuleId)

theorem sameExports_declareOne (p : Pending) : s.SameExports (s.declareOne ctx m p).2 := by
  have hmap : (s.declareOne ctx m p).2.map
      = (s.map.record m (.type p.type) (.type (.definition (s.place ctx m p).1))).recordSource
        (s.place ctx m p).1 m p.type := by
    rw [← map_place s ctx m p]
    rfl
  refine ⟨?_, ?_, fun l qualified ↦ ?_⟩
  · rw [target_declareOne]
    rcases s.place_cases ctx m p with hshares | ⟨shell, henters⟩
    · rw [hshares.target]
    · rw [henters.target, Module.addType_tables]
  · rw [hmap]
    rfl
  · rw [hmap]
    exact SymbolMap.find?_record_of_ne (s := s.map) (by simp) _

theorem sameExports_declareAll (work : List Pending) :
    s.SameExports (declareAll ctx m s work) := by
  induction s, work using declareAll.induct ctx m with
  | case1 s =>
    rw [declareAll]
    exact .refl s
  | case2 s p rest hknown ih =>
    rw [declareAll, if_pos hknown]
    exact ih
  | case3 s p rest hnew placed ih =>
    rw [declareAll, if_neg hnew]
    exact (s.sameExports_declareOne ctx m p).trans ih

theorem sameExports_ensureIn (id : TypeId) (container : Option TypeId) :
    s.SameExports (s.ensureIn ctx m id container).2 := by
  unfold ensureIn
  split
  · exact .refl s
  · exact s.sameExports_declareAll ctx m _

theorem sameExports_ensureChain (chain : List TypeId) :
    s.SameExports (ensureChain ctx m chain s).2 := by
  induction chain with
  | nil => exact .refl s
  | cons id outer ih =>
    cases outer with
    | nil => exact s.sameExports_ensureIn ctx m id none
    | cons next rest =>
      rw [ensureChain]
      split
      · exact .refl s
      · exact ih.trans (sameExports_ensureIn _ ctx m id _)

end ImportState

namespace Target

/-! ## References of the output -/

variable (t : Target)

theorem exportedTypes_internTypeRef (r : TypeRef) :
    (t.internTypeRef r).2.exportedTypes = t.exportedTypes := by
  rcases t.internTypeRef_cases r with ⟨heq, -, -⟩ | ⟨-, heq⟩ <;> rw [heq]
  rfl

theorem exportedTypes_internMemberRef (r : MemberRef) :
    (t.internMemberRef r).2.exportedTypes = t.exportedTypes := by
  rcases t.internMemberRef_cases r with ⟨heq, -⟩ | ⟨-, heq⟩ <;> rw [heq]
  rfl

theorem exportedTypes_referAssembly (r : AssemblyRef) :
    (t.referAssembly r).2.exportedTypes = t.exportedTypes := by
  rw [t.referAssembly_tables r]

theorem exportedTypes_resolveAssembly (ctx : Context) (m : ModuleId) (id : AssemblyRefId) :
    (t.resolveAssembly ctx m id).2.exportedTypes = t.exportedTypes := by
  unfold resolveAssembly
  dsimp only
  split
  · rfl
  · exact t.exportedTypes_referAssembly _

theorem exportedTypes_referChain (m : Module) (root : Scope) (chain : List ExportId) :
    (t.referChain m root chain).2.exportedTypes = t.exportedTypes := by
  induction chain with
  | nil => rfl
  | cons id outer ih =>
    cases outer with
    | nil => exact t.exportedTypes_internTypeRef _
    | cons next rest =>
      rw [referChain]
      exact (exportedTypes_internTypeRef _ _).trans ih

end Target

namespace Import

open ImportState

variable {ctx : Context} {s s' : ImportState} {m : ModuleId}

/-! ## Steps -/

theorem DeclareStep.sameExports (h : DeclareStep ctx m s s') : s.SameExports s' := by
  cases h with
  | @declare p _ _ => exact s.sameExports_declareOne ctx m p

theorem DeclareStep.sameExports_steps (h : ReflTransGen (DeclareStep ctx m) s s') :
    s.SameExports s' :=
  .of_steps (ReflTransGen.mono (fun _ _ ↦ DeclareStep.sameExports) _ _ h)

theorem UseStep.sameExports (h : UseStep ctx s s') : s.SameExports s' := by
  cases h with
  | sign h =>
    cases h with
    | place h =>
      cases h with
      | declare h => exact DeclareStep.sameExports_steps h.steps
      | refer _ _ => exact .of_target (s.target.exportedTypes_referAssembly _)
      | intern _ => exact .of_target (s.target.exportedTypes_internTypeRef _)
    | resolve _ _ _ _ _ => exact .of_record (by simp)
  | intern _ => exact .of_target (s.target.exportedTypes_internMemberRef _)
  | resolve _ _ _ _ => exact .of_record (by simp)

theorem FillStep.sameExports (h : FillStep ctx m s s') : s.SameExports s' := by
  cases h with
  | sign h => exact (UseStep.sign h).sameExports
  | hierarchy _ _ _ => exact .of_target rfl
  | shareField _ _ _ | shareMethod _ _ _ _ _ _ => exact .of_record (by simp)
  | addField _ _ _ _ =>
    exact ⟨rfl, rfl, fun _ qualified ↦ SymbolMap.find?_record_of_ne (s := s.map) (by simp) _⟩
  | addMethod _ _ _ _ _ _ =>
    exact ⟨rfl, rfl, fun _ qualified ↦
      SymbolMap.find?_record_of_ne (s := s.map.recordMethodOrigin _ _) (by simp) _⟩

theorem Step.sameExports (h : Step ctx s s') : s.SameExports s' := by
  cases h with
  | shape h =>
    cases h with
    | fill h => exact h.sameExports
    | visit _ _ => exact ⟨rfl, rfl, fun _ _ ↦ rfl⟩
  | copy h =>
    cases h with
    | use h => exact h.sameExports
    | visit _ _ => exact ⟨rfl, rfl, fun _ _ ↦ rfl⟩
    | setBody _ _ _ _ => exact .of_target rfl

end Import

end ModuleLinker
