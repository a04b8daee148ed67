import ModuleLinker.Proofs.Import.Late

/-!
# Entries for modules outside the link

The output refers to a module outside the link through one entry, which is there from the first
reference on and whose version later references may raise. Who refers to it first, and in what order
the others come, depends on how an import goes; what holds at every moment is that each entry has
the version of some input's reference of its name, and that no reference which has been entered for
a type of the module asks for a higher one.

Only one step changes an entry or adds one, and only one enters a reference. The others leave both
alone.
-/

namespace ModuleLinker

open Relation (ReflTransGen)

/-- An entry is for a module outside the link, and has the version of an input's reference to it. -/
structure Context.Gives (ctx : Context) (e : AssemblyRef) : Prop where
  outside : ctx.merged? e.name = none
  given : ∃ m, ∃ r ∈ (ctx.module m).assemblyRefs,
    Text.sameName r.name e.name = true ∧ r.version = e.version

/-- An entry whose version is raised to that of an input's reference of its name is still given. -/
theorem Context.Gives.highest {ctx : Context} {e : AssemblyRef} {m : ModuleId} {a : AssemblyRefId}
    (h : ctx.Gives e) (ha : a.index < (ctx.module m).assemblyRefs.length)
    (hname : Text.sameName e.name ((ctx.module m).assemblyRef a).name = true) :
    ctx.Gives { e with version := e.version.highest ((ctx.module m).assemblyRef a).version } := by
  refine ⟨h.outside, ?_⟩
  rcases e.version.highest_eq_or ((ctx.module m).assemblyRef a).version with heq | heq
  · rw [heq]
    exact h.given
  · rw [heq]
    have hname' : Text.sameName ((ctx.module m).assemblyRef a).name e.name = true :=
      Text.sameName_iff.mpr (Text.sameName_iff.mp hname).symm
    exact ⟨m, _, Module.assemblyRef_mem ha, hname', rfl⟩

namespace ImportState

/-- What is known of the modules outside the link that the output refers to. -/
structure External (s : ImportState) (ctx : Context) : Prop where
  given : ∀ e ∈ s.target.assemblyRefs, ctx.Gives e
  covers : ∀ {m id sig}, s.map.typeRefOf? m id = some sig →
    s.target.Covers ctx m ((ctx.module m).typeRef id)

variable {s s' : ImportState} {ctx : Context}

theorem External.of_eq (h : s.External ctx)
    (hassembly : s'.target.assemblyRefs = s.target.assemblyRefs)
    (hrefs : ∀ m id, s'.map.typeRefOf? m id = s.map.typeRefOf? m id) : s'.External ctx := by
  refine ⟨hassembly ▸ h.given, fun {m id sig} hid a hscope hout ↦ ?_⟩
  rw [hrefs] at hid
  obtain ⟨e, he⟩ := h.covers hid a hscope hout
  have hentry : Module.assemblyRef s'.target e = Module.assemblyRef s.target e := by
    rw [Module.assemblyRef, hassembly]
    rfl
  exact ⟨e, hassembly ▸ he.index_lt, hentry ▸ he.name, hentry ▸ he.version⟩

/-- Referring to a module outside the link keeps what is known: the entry is raised to, or added
with, the version of a reference of an input. -/
theorem External.referAssembly (h : s.External ctx) {m : ModuleId} {a : AssemblyRefId}
    (ha : a.index < (ctx.module m).assemblyRefs.length)
    (hout : ctx.merged? ((ctx.module m).assemblyRef a).name = none) :
    ({ s with target := (s.target.referAssembly ((ctx.module m).assemblyRef a)).2 } :
      ImportState).External ctx := by
  refine ⟨fun e he ↦ ?_, fun hid ↦ (h.covers hid).mono (Target.grows_referAssembly _ _)⟩
  rcases s.target.referAssembly_cases ((ctx.module m).assemblyRef a) with
    ⟨i, hi, hname, heq⟩ | ⟨-, heq⟩
  · rw [heq] at he
    obtain ⟨j, hj, rfl⟩ := List.getElem_of_mem he
    rw [List.getElem_modify]
    split
    · next hij =>
      subst hij
      exact (h.given _ (List.getElem_mem _)).highest ha hname
    · exact h.given _ (List.getElem_mem _)
  · rw [heq] at he
    rcases List.mem_append.mp he with he | he
    · exact h.given e he
    · rw [List.mem_singleton.mp he]
      exact ⟨hout, m, _, Module.assemblyRef_mem ha, Text.sameName_iff.mpr rfl, rfl⟩

theorem External.record (h : s.External ctx) {m : ModuleId} {id : TypeRefId} {sig : TypeSig}
    (hcovers : s.target.Covers ctx m ((ctx.module m).typeRef id)) :
    ({ s with map := s.map.record m (.typeRef id) (.type sig) } : ImportState).External ctx := by
  refine ⟨h.given, fun hid ↦ ?_⟩
  rcases SymbolMap.find?_record_cases (SymbolMap.typeRefOf?_eq_some.mp hid) with hold | ⟨heq, -⟩
  · exact h.covers (SymbolMap.typeRefOf?_eq_some.mpr hold)
  · cases heq
    exact hcovers

end ImportState

theorem Context.external_startImport (ctx : Context) : ctx.startImport.External ctx :=
  ⟨fun _ he ↦ (by cases he), fun hid ↦ (by cases hid)⟩

/-! ## Steps

Of all steps only one refers to a module by name. Every other step leaves the list of referenced
modules as it is, and entries of references that need no such module are covered as they were. -/

namespace Import

open ImportState

variable {ctx : Context} {s s' : ImportState} {m : ModuleId}

theorem DeclareStep.assemblyRefs_eq (h : DeclareStep ctx m s s') :
    s'.target.assemblyRefs = s.target.assemblyRefs := by
  cases h with
  | @declare p _ _ =>
    rw [target_declareOne]
    rcases s.place_cases ctx m p with hshares | ⟨shell, henters⟩
    · rw [hshares.target]
    · rw [henters.target, Module.addType_tables]

theorem DeclareStep.assemblyRefs_eq_steps (h : ReflTransGen (DeclareStep ctx m) s s') :
    s'.target.assemblyRefs = s.target.assemblyRefs := by
  induction h with
  | refl => rfl
  | tail _ hstep ih => exact hstep.assemblyRefs_eq.trans ih

theorem PlaceStep.external (h : PlaceStep ctx s s') (he : s.External ctx) : s'.External ctx := by
  have hrefs : ∀ l id, s'.map.typeRefOf? l id = s.map.typeRefOf? l id := fun l id ↦ by
    rw [SymbolMap.typeRefOf?, SymbolMap.typeRefOf?, h.find?_typeRef]
  cases h with
  | declare h => exact he.of_eq (DeclareStep.assemblyRefs_eq_steps h.steps) hrefs
  | refer ha hout => exact he.referAssembly ha hout
  | @intern r _ =>
    refine he.of_eq ?_ hrefs
    rcases s.target.internTypeRef_cases r with ⟨heq, -⟩ | ⟨-, heq⟩ <;> rw [heq]
    rfl

theorem UseStep.external (h : UseStep ctx s s') (he : s.External ctx) : s'.External ctx := by
  cases h with
  | sign h =>
    cases h with
    | place h => exact h.external he
    | resolve _ _ _ _ hcovers => exact he.record hcovers
  | @intern r _ =>
    refine he.of_eq ?_ fun _ _ ↦ rfl
    rcases s.target.internMemberRef_cases r with ⟨heq, -⟩ | ⟨-, heq⟩ <;> rw [heq]
    rfl
  | resolve _ _ _ _ => exact he.of_eq rfl fun _ _ ↦ SymbolMap.typeRefOf?_record_of_ne (by simp)

theorem Step.external (h : Step ctx s s') (he : s.External ctx) : s'.External ctx := by
  cases h with
  | shape h =>
    cases h with
    | visit _ _ => exact he.of_eq rfl fun _ _ ↦ rfl
    | fill h =>
      cases h with
      | sign h => exact (UseStep.sign h).external he
      | hierarchy _ _ _ => exact he.of_eq rfl fun _ _ ↦ rfl
      | shareField _ _ _ | addField _ _ _ _ | shareMethod _ _ _ _ _ _ | addMethod _ _ _ _ _ _ =>
        exact he.of_eq rfl fun _ _ ↦ SymbolMap.typeRefOf?_record_of_ne (by simp)
  | copy h =>
    cases h with
    | use h => exact h.external he
    | visit _ _ | setBody _ _ _ _ => exact he.of_eq rfl fun _ _ ↦ rfl

theorem LateStep.external (h : LateStep ctx s s') (he : s.External ctx) : s'.External ctx := by
  cases h with
  | use h => exact h.external he
  | moduleType =>
    refine he.of_eq ?_ fun _ _ ↦ rfl
    rcases s.target.ensureModuleType_cases with ⟨heq, -⟩ | ⟨shell, -, heq, -⟩ <;> rw [heq]
    rw [Module.addType_tables]
  | setBody _ _ | addMethod _ | addExport _ => exact he.of_eq rfl fun _ _ ↦ rfl
  | lead _ => exact he.of_eq rfl fun _ _ ↦ SymbolMap.typeRefOf?_record_of_ne (by simp)
  | note hentries _ _ =>
    refine he.of_eq rfl fun _ _ ↦ ?_
    rw [SymbolMap.typeRefOf?, SymbolMap.find?, hentries]
    rfl

/-- Whatever is imported, in whatever order. -/
theorem external_of_steps {T : ImportState → ImportState → Prop}
    (hT : ∀ s s', T s s' → s.External ctx → s'.External ctx) (h : ReflTransGen T s s')
    (he : s.External ctx) : s'.External ctx := by
  induction h with
  | refl => exact he
  | tail _ hstep ih => exact hT _ _ hstep ih

end Import

end ModuleLinker
