import ModuleLinker.Proofs.Import.Exported
import ModuleLinker.Proofs.Import.Run

/-!
# The steps after the import of types

Folding initializers and resolving exports carry operands over and place types like the import of
types does. Besides they add the module-level type, set or add one method, add exports and take
notes that no other stage of an import reads. Every such step keeps a sound state sound.

The blocks of folded routines are noted in these stages only: the import of types leaves the table
of blocks as it was, which is empty.
-/

namespace ModuleLinker

open Relation (ReflTransGen)

namespace Import

variable {ctx : Context} {s s' : ImportState}

/-- What folding initializers and resolving exports do to the state. -/
inductive LateStep (ctx : Context) (s : ImportState) : ImportState → Prop
  | use {s' : ImportState} (h : UseStep ctx s s') : LateStep ctx s s'
  | moduleType : LateStep ctx s { s with target := s.target.ensureModuleType.2 }
  | setBody (id : MethodId) {body : Body} (hin : ∀ x ∈ body.ids, s.target.Has x) :
      LateStep ctx s
        { s with target := s.target.updateMethod id fun d ↦ { d with body := some body } }
  | addMethod {d : MethodDef} (hin : ∀ x ∈ d.ids, s.target.Has x) :
      LateStep ctx s { s with target := (s.target.addMethod d).2 }
  | addExport {e : ExportedType} (hin : ∀ x ∈ e.ids, s.target.Has x) :
      LateStep ctx s { s with target := (s.target.addExportedType e).2 }
  | lead {m : ModuleId} {qualified : String} {sig : TypeSig}
      (hin : ∀ x ∈ sig.ids, s.target.Has x) :
      LateStep ctx s { s with map := s.map.record m (.export qualified) (.type sig) }
  | note {map : SymbolMap} (hentries : map.entries = s.map.entries)
      (hsources : map.sources = s.map.sources)
      (horigins : map.methodOrigins = s.map.methodOrigins) :
      LateStep ctx s { s with map }

theorem grows_ensureModuleType (t : Target) : Module.Grows t t.ensureModuleType.2 := by
  rcases t.ensureModuleType_cases with ⟨heq, -⟩ | ⟨shell, -, heq, -⟩
  · rw [heq]
    exact .refl t
  · rw [heq]
    exact .addType t shell

theorem ensureModuleType_lt (t : Target) :
    t.ensureModuleType.1.index < t.ensureModuleType.2.types.length := by
  rcases t.ensureModuleType_cases with ⟨heq, hl⟩ | ⟨shell, -, heq, -⟩
  · rw [heq]
    exact Target.lookup?_lt hl
  · rw [heq]
    simp

@[simp] theorem methods_ensureModuleType (t : Target) :
    t.ensureModuleType.2.methods = t.methods := by
  rcases t.ensureModuleType_cases with ⟨heq, -⟩ | ⟨shell, -, heq, -⟩ <;> rw [heq]
  rw [Module.addType_tables]

theorem LateStep.grows (h : LateStep ctx s s') : s.Grows s' := by
  cases h with
  | use h => exact h.grows
  | moduleType => exact .of_target (grows_ensureModuleType _)
  | setBody id _ => exact .of_target (.updateMethod _ _ fun _ ↦ rfl)
  | addMethod _ => exact .of_target (.addMethod _ _)
  | addExport _ => exact .of_target (.addExportedType _ _)
  | lead _ => exact .of_record s _ _ _
  | note hentries hsources horigins =>
    refine ⟨.refl _, fun m symbol c hc ↦ ?_, fun t ↦ ?_, fun ho ↦ ?_⟩
    · rw [SymbolMap.find?, hentries]
      exact hc
    · simp only [SymbolMap.sourcesOf, hsources, List.prefix_refl]
    · rw [SymbolMap.methodOrigin?, horigins]
      exact ho

theorem LateStep.sound (h : LateStep ctx s s') (hs : s.Sound ctx) : s'.Sound ctx := by
  cases h with
  | use h => exact h.sound hs
  | moduleType =>
    rcases s.target.ensureModuleType_cases with ⟨heq, -⟩ | ⟨shell, hshell, heq, -⟩
    · rw [heq]
      exact hs
    · rw [heq]
      exact hs.addShell hshell fun o ho ↦ by cases ho
  | setBody id hin =>
    exact hs.of_target (hs.linked.updateMethod _ _ fun _ ↦ rfl) (hs.closed.setBody _ hin)
      (hs.interned.congr rfl rfl) (.updateMethod _ _ fun _ ↦ rfl)
  | @addMethod d hin =>
    have howner : d.declaring.index < s.target.types.length :=
      hin (.type, d.declaring.index) (by simp [MethodDef.ids])
    exact hs.of_target (hs.linked.addMethod howner) (hs.closed.addMethod hin)
      (hs.interned.congr rfl rfl) (.addMethod _ d)
  | @addExport e hin =>
    exact hs.of_target (hs.linked.congr rfl rfl rfl rfl) (hs.closed.addExportedType hin)
      (hs.interned.congr rfl rfl) (.addExportedType _ e)
  | lead hin => exact hs.record trivial hin fun _ hne ↦ by cases hne
  | note hentries hsources _ => exact hs.of_eq rfl hentries hsources

theorem LateStep.grows_steps (h : ReflTransGen (LateStep ctx) s s') : s.Grows s' :=
  .of_steps (fun _ _ ↦ LateStep.grows) h

theorem LateStep.sound_steps (h : ReflTransGen (LateStep ctx) s s') (hs : s.Sound ctx) :
    s'.Sound ctx :=
  .of_steps LateStep.sound h hs

/-- What methods were mapped onto, and who made those, is settled before. -/
theorem LateStep.sameWriters (h : LateStep ctx s s') : s.SameWriters s' := by
  cases h with
  | use h => exact h.sameMembers.sameWriters
  | moduleType | setBody _ _ | addMethod _ | addExport _ => exact ⟨fun _ _ ↦ rfl, fun _ ↦ rfl⟩
  | lead _ =>
    refine ⟨fun m id ↦ ?_, fun _ ↦ rfl⟩
    rw [SymbolMap.methodOf?, SymbolMap.find?_record_of_ne fun heq ↦ by cases heq]
    rfl
  | note hentries _ horigins =>
    refine ⟨fun m id ↦ ?_, fun d ↦ ?_⟩
    · rw [SymbolMap.methodOf?, SymbolMap.find?, hentries]
      rfl
    · rw [SymbolMap.methodOrigin?, horigins]
      rfl

theorem LateStep.sameWriters_steps (h : ReflTransGen (LateStep ctx) s s') : s.SameWriters s' := by
  induction h with
  | refl => exact .refl s
  | tail _ hstep ih => exact ih.trans hstep.sameWriters

/-! ## What references mean -/

theorem UseStep.resolves (h : UseStep ctx s s') {m : ModuleId} {id : TypeRefId} {sig : TypeSig}
    (hid : s'.map.typeRefOf? m id = some sig) :
    s.map.typeRefOf? m id = some sig ∨ s'.Resolves ctx m ((ctx.module m).typeRef id) sig := by
  have hg := h.grows
  cases h with
  | sign h =>
    cases h with
    | place h =>
      rw [SymbolMap.typeRefOf?_eq_some, h.find?_typeRef, ← SymbolMap.typeRefOf?_eq_some] at hid
      exact .inl hid
    | resolve _ _ hmeans _ _ =>
      rcases SymbolMap.find?_record_cases (SymbolMap.typeRefOf?_eq_some.mp hid)
        with hold | ⟨heq, hc⟩
      · exact .inl (SymbolMap.typeRefOf?_eq_some.mpr hold)
      · cases heq
        cases hc
        exact .inr (hmeans.mono hg)
  | intern _ => exact .inl hid
  | resolve _ _ _ _ => exact .inl ((SymbolMap.typeRefOf?_record_of_ne (by simp)).symm.trans hid)

theorem LateStep.resolves (h : LateStep ctx s s') {m : ModuleId} {id : TypeRefId} {sig : TypeSig}
    (hid : s'.map.typeRefOf? m id = some sig) :
    s.map.typeRefOf? m id = some sig ∨ s'.Resolves ctx m ((ctx.module m).typeRef id) sig := by
  cases h with
  | use h => exact h.resolves hid
  | moduleType | setBody _ _ | addMethod _ | addExport _ => exact .inl hid
  | lead _ => exact .inl ((SymbolMap.typeRefOf?_record_of_ne (by simp)).symm.trans hid)
  | note hentries _ _ =>
    rw [SymbolMap.typeRefOf?, SymbolMap.find?, hentries] at hid
    exact .inl hid

/-- Late steps change the meaning of no reference. -/
theorem LateStep.resolves_steps (h : ReflTransGen (LateStep ctx) s s')
    (hs : ∀ {m id sig}, s.map.typeRefOf? m id = some sig →
      s.Resolves ctx m ((ctx.module m).typeRef id) sig) {m : ModuleId} {id : TypeRefId}
    {sig : TypeSig} (hid : s'.map.typeRefOf? m id = some sig) :
    s'.Resolves ctx m ((ctx.module m).typeRef id) sig := by
  induction h with
  | refl => exact hs hid
  | tail _ hstep ih =>
    rcases hstep.resolves hid with hold | hnew
    · exact (ih hold).mono hstep.grows
    · exact hnew

/-! ## Folding

Folding is made of late steps that leave exports alone, so that what is known of exports when
their resolution begins is what the import of types has left. -/

/-- What folding initializers does to the state: late steps that leave exports alone. -/
structure FoldStep (ctx : Context) (s s' : ImportState) : Prop where
  late : LateStep ctx s s'
  exports : s.SameExports s'

theorem FoldStep.use (h : UseStep ctx s s') : FoldStep ctx s s' := ⟨.use h, h.sameExports⟩

theorem FoldStep.late_steps (h : ReflTransGen (FoldStep ctx) s s') :
    ReflTransGen (LateStep ctx) s s' :=
  ReflTransGen.mono (fun _ _ ↦ FoldStep.late) _ _ h

theorem FoldStep.grows_steps (h : ReflTransGen (FoldStep ctx) s s') : s.Grows s' :=
  LateStep.grows_steps (late_steps h)

theorem FoldStep.sound_steps (h : ReflTransGen (FoldStep ctx) s s') (hs : s.Sound ctx) :
    s'.Sound ctx :=
  LateStep.sound_steps (late_steps h) hs

theorem FoldStep.exports_steps (h : ReflTransGen (FoldStep ctx) s s') : s.SameExports s' :=
  .of_steps (ReflTransGen.mono (fun _ _ ↦ FoldStep.exports) _ _ h)

theorem exportedTypes_ensureModuleType (t : Target) :
    t.ensureModuleType.2.exportedTypes = t.exportedTypes := by
  rcases t.ensureModuleType_cases with ⟨heq, -⟩ | ⟨shell, -, heq, -⟩ <;> rw [heq]
  rw [Module.addType_tables]

/-! ## Blocks

Blocks are recorded at the end of folding only. Before that a method has no blocks, which is how a
body that was copied as a whole is known. -/

theorem DeclareStep.blocks_eq {m : ModuleId} (h : DeclareStep ctx m s s') :
    s'.map.blocks = s.map.blocks := by
  cases h with
  | @declare p _ _ =>
    change (s.place ctx m p).2.map.blocks = s.map.blocks
    rw [ImportState.map_place]

theorem PlaceStep.blocks_eq (h : PlaceStep ctx s s') : s'.map.blocks = s.map.blocks := by
  cases h with
  | declare h =>
    obtain ⟨hsteps, -⟩ := h
    induction hsteps with
    | refl => rfl
    | tail _ hstep ih => rw [hstep.blocks_eq, ih]
  | refer _ _ | intern _ => rfl

theorem UseStep.blocks_eq (h : UseStep ctx s s') : s'.map.blocks = s.map.blocks := by
  cases h with
  | sign h =>
    cases h with
    | place h => exact h.blocks_eq
    | resolve _ _ _ _ _ => rfl
  | intern _ | resolve _ _ _ _ => rfl

theorem UseStep.blocks_eq_steps (h : ReflTransGen (UseStep ctx) s s') :
    s'.map.blocks = s.map.blocks := by
  induction h with
  | refl => rfl
  | tail _ hstep ih => rw [hstep.blocks_eq, ih]

theorem Step.blocks_eq (h : Step ctx s s') : s'.map.blocks = s.map.blocks := by
  cases h with
  | shape h =>
    cases h with
    | visit _ _ => rfl
    | fill h =>
      cases h with
      | sign h => exact (UseStep.sign h).blocks_eq
      | hierarchy _ _ _ | shareField _ _ _ | addField _ _ _ _ | shareMethod _ _ _ _ _ _
        | addMethod _ _ _ _ _ _ => rfl
  | copy h =>
    cases h with
    | use h => exact h.blocks_eq
    | visit _ _ | setBody _ _ _ _ => rfl

theorem blocks_of_run (hctx : ctx.registry.Accepted)
    (h : run ctx ctx.startImport = .ok () s) : s.map.blocks = {} := by
  have hsteps := ((reaches_run hctx).of_ok h).1
  clear h
  induction hsteps with
  | refl => rfl
  | tail _ hstep ih => rw [hstep.blocks_eq, ih]

end Import

end ModuleLinker
