import ModuleLinker.Proofs.Image.Exports
import ModuleLinker.Proofs.Import.Late

/-!
# Exported types of the output

An export that does not lead to a type of the link becomes a reference, nested as deep as the export
was, and may be exported again. What an export of the output stores comes from that reference or out
of the table of the exports that have been emitted, so it stands inside the output; that the table
holds nothing else is what the sweep over all exports has to keep.
-/

namespace ModuleLinker

open Relation (ReflTransGen)

/-- The ids in a scope. -/
def Scope.ids (scope : Scope) : List (TableKind × Nat) := TypeRef.ids ⟨scope, "", ""⟩

/-- The table of emitted exports holds exports of the output. -/
def ExportTable.Within (emitted : ExportTable) (t : Target) : Prop :=
  ∀ name e, emitted.find? name = some e → e.index < t.exportedTypes.length

theorem ExportTable.Within.mono {emitted : ExportTable} {t t' : Target} (h : emitted.Within t)
    (ht : Module.Grows t t') : emitted.Within t' :=
  fun name e he ↦ Nat.lt_of_lt_of_le (h name e he) (ht.within .exportedType)

namespace Import

variable {ctx : Context} {s s' : ImportState} {m : ModuleId}

/-! ## The steps -/

/-- What resolving exports does to the state: late steps that leave methods and blocks alone, and
types as well unless they declare some. -/
structure ExportStep (ctx : Context) (s s' : ImportState) : Prop where
  late : LateStep ctx s s'
  methods : s'.target.methods = s.target.methods
  blocks : s'.map.blocks = s.map.blocks
  types : (∃ m, Declares ctx m s s') ∨ s'.target.types = s.target.types

theorem PlaceStep.types_eq (h : PlaceStep ctx s s') :
    (∃ m, Declares ctx m s s') ∨ s'.target.types = s.target.types := by
  cases h with
  | declare h => exact .inl ⟨_, h⟩
  | refer _ _ =>
    rw [Target.referAssembly_tables]
    exact .inr rfl
  | @intern r _ =>
    rcases s.target.internTypeRef_cases r with ⟨heq, -⟩ | ⟨-, heq⟩ <;> rw [heq] <;> exact .inr rfl

theorem ExportStep.place (h : PlaceStep ctx s s') : ExportStep ctx s s' :=
  ⟨.use (.sign (.place h)), h.sameMembers.methods, h.blocks_eq, h.types_eq⟩

theorem ExportStep.late_steps (h : ReflTransGen (ExportStep ctx) s s') :
    ReflTransGen (LateStep ctx) s s' :=
  ReflTransGen.mono (fun _ _ ↦ ExportStep.late) _ _ h

theorem ExportStep.sound_steps (h : ReflTransGen (ExportStep ctx) s s') (hs : s.Sound ctx) :
    s'.Sound ctx :=
  LateStep.sound_steps (late_steps h) hs

theorem ExportStep.frame_steps (h : ReflTransGen (ExportStep ctx) s s') :
    s'.target.methods = s.target.methods ∧ s'.map.blocks = s.map.blocks := by
  induction h with
  | refl => exact ⟨rfl, rfl⟩
  | tail _ hstep ih => exact ⟨hstep.methods.trans ih.1, hstep.blocks.trans ih.2⟩

/-! ## References for exports -/

variable (ctx) in
theorem referChain_steps {source : Module} {root : Scope}
    (hroot : ∀ x ∈ root.ids, s.target.Has x) (chain : List ExportId) (hne : chain ≠ []) :
    ReflTransGen (PlaceStep ctx) s { s with target := (s.target.referChain source root chain).2 }
      ∧ (s.target.referChain source root chain).1.index
        < (s.target.referChain source root chain).2.typeRefs.length := by
  induction chain with
  | nil => exact absurd rfl hne
  | cons id outer ih =>
    cases outer with
    | nil =>
      refine ⟨.single (.intern ?_), Target.index_internTypeRef _ _⟩
      cases root <;> exact hroot
    | cons next rest =>
      obtain ⟨hsteps, hlt⟩ := ih (List.cons_ne_nil _ _)
      refine ⟨hsteps.tail (.intern fun x hx ↦ ?_), Target.index_internTypeRef _ _⟩
      rw [List.mem_singleton.mp hx]
      exact hlt

theorem reaches_exportScope {a : Option AssemblyRefId}
    (hin : ∀ a' ∈ a, a'.index < (ctx.module m).assemblyRefs.length) :
    Reaches (PlaceStep ctx) s (exportScope ctx m a) fun scope s' ↦
      ∀ x ∈ scope.ids, s'.target.Has x := by
  unfold exportScope
  cases a with
  | none => exact .pure fun x hx ↦ by cases hx
  | some a =>
    refine .bind (reaches_resolveAssembly (.refer (hin a rfl))) fun r s' _ hr ↦ ?_
    cases r with
    | merged _ => exact .pure fun x hx ↦ by cases hx
    | external a' =>
      refine .pure fun x hx ↦ ?_
      rw [List.mem_singleton.mp hx]
      exact hr.2.index_lt

theorem reaches_referExport {scope : Scope} (hscope : ∀ x ∈ scope.ids, s.target.Has x)
    (id : ExportId) :
    Reaches (PlaceStep ctx) s (do
      let (r, target) ← ofExcept ((← get).target.referExport (ctx.module m) scope id)
      modifyTarget fun _ ↦ target
      return r) fun r s' ↦ r.index < s'.target.typeRefs.length := by
  refine .get_bind ?_
  unfold Target.referExport
  cases (ctx.module m).exportLoop? id with
  | some repeated => exact .throw
  | none =>
    obtain ⟨rest, hchain⟩ := (ctx.module m).exportChain_eq_cons id
    obtain ⟨hsteps, hlt⟩ := referChain_steps ctx hscope ((ctx.module m).exportChain id)
      (hchain ▸ List.cons_ne_nil id rest)
    exact .run rfl hsteps hlt

theorem reaches_importExport (hctx : ctx.registry.Accepted) {id : ExportId}
    (hid : id ∈ (ctx.module m).exportIds) {fin : ForwardEnd} (hstands : fin.Stands ctx) :
    Reaches (PlaceStep ctx) s (importExport ctx m id fin) fun r s' ↦
      r.index < s'.target.typeRefs.length := by
  have hhome {l : ModuleId} {e : ExportId} (he : e ∈ (ctx.module l).exportIds) :
      ∀ a ∈ (ctx.module l).exportAssembly? e, a.index < (ctx.module l).assemblyRefs.length :=
    fun _ ↦ Module.exportAssembly?_lt (Context.fault?_module hctx l) he
  unfold importExport
  cases fin with
  | external f a =>
    obtain ⟨-, e, he, ha⟩ := hstands
    refine .bind (reaches_exportScope (ha ▸ hhome he)) fun scope s' _ h ↦ reaches_referExport h id
  | defined _ _ | unresolved =>
    exact .bind (reaches_exportScope (hhome hid)) fun scope s' _ h ↦ reaches_referExport h id

/-! ## Emitting exports

A nested export is emitted inside an export of the output, which is looked up by name. So what it
is linked to is there. -/

theorem ids_of_target? {t : Target} (ht : Module.Closed t) {emitted : ExportTable}
    (hemitted : emitted.Within t) {source : Module} {e : ExportedType} {r : TypeRefId}
    (hr : r.index < t.typeRefs.length) {implementation : ExportTarget}
    (h : emitted.target? source e (Module.typeRef t r).scope = some implementation) :
    ∀ x ∈ ExportedType.ids { e with implementation }, t.Has x := by
  intro x hx
  cases hscope : (Module.typeRef t r).scope with
  | assembly a =>
    rw [hscope] at h
    cases h
    have hmem : Module.typeRef t r ∈ t.typeRefs := by
      rw [Module.typeRef, List.getD_eq_getElem _ _ hr]
      exact List.getElem_mem hr
    refine ht.typeRefs _ hmem x ?_
    rw [TypeRef.ids, hscope]
    exact hx
  | «local» =>
    rw [hscope] at h
    cases h
    cases hx
  | nested o =>
    rw [hscope] at h
    simp only [ExportTable.target?, Option.bind_eq_bind, Option.bind_eq_some_iff] at h
    obtain ⟨outer, -, found, hfound, heq⟩ := h
    cases heq
    rw [List.mem_singleton.mp hx]
    exact hemitted _ _ hfound

theorem reaches_emitExport (hs : s.Sound ctx) {emitted : ExportTable}
    (hemitted : emitted.Within s.target) {source : Module} {id : ExportId} {r : TypeRefId}
    (hr : r.index < s.target.typeRefs.length) :
    Reaches (ExportStep ctx) s (emitExport emitted source id r) fun emitted' s' ↦
      emitted'.Within s'.target := by
  unfold emitExport
  refine .ofTarget_bind ?_
  cases himpl : emitted.target? source (source.exportedType id)
      (Module.typeRef s.target r).scope with
  | none => exact .pure hemitted
  | some implementation =>
    have hstep : ExportStep ctx s { s with target := (s.target.addExportedType
        { source.exportedType id with implementation }).2 } :=
      ⟨.addExport (ids_of_target? hs.closed hemitted hr himpl), rfl, rfl, .inr rfl⟩
    refine .run_bind rfl (.single hstep) (.pure fun name e he ↦ ?_)
    rw [Table.find?_insertNew] at he
    split at he
    · cases he
      cases hold : emitted.find? (source.exportName id) with
      | some known => exact hemitted.mono hstep.late.grows.target _ _ hold
      | none => simp
    · exact hemitted.mono hstep.late.grows.target _ _ he

/-! ## All exports -/

theorem reaches_exportEnd (id : ExportId) :
    Reaches (ExportStep ctx) s (exportEnd ctx m id) fun fin s' ↦ s' = s ∧ fin.Stands ctx := by
  unfold exportEnd
  split
  · exact .ofExcept fun fin hfin ↦ ⟨rfl, Context.stands_of_followForwarders hfin⟩
  · exact .pure ⟨rfl, trivial⟩

section Accepted

variable (hctx : ctx.registry.Accepted)
include hctx

theorem reaches_resolveExport (hs : s.Sound ctx) {emitted : ExportTable}
    (hemitted : emitted.Within s.target) {id : ExportId} (hid : id ∈ (ctx.module m).exportIds) :
    Reaches (ExportStep ctx) s (resolveExport ctx emitted m id) fun emitted' s' ↦
      emitted'.Within s'.target := by
  unfold resolveExport
  dsimp only
  refine .bind (reaches_exportEnd id) fun fin s₁ _ h ↦ ?_
  obtain ⟨rfl, hstands⟩ := h
  -- an export that does not lead into the link is carried over and may be emitted
  have hother : ∀ fin : ForwardEnd, fin.Stands ctx → Reaches (ExportStep ctx) s₁ (do
      let r ← importExport ctx m id fin
      modifyMap fun map ↦
        map.record m (.export ((ctx.module m).exportName id)) (.type (.reference r))
      if ctx.policy.hidesName ((ctx.module m).exportName id) (ctx.internalizes m)
          || emitted.contains ((ctx.module m).exportName id) then
        return emitted
      else emitExport emitted (ctx.module m) id r) fun emitted' s' ↦ emitted'.Within s'.target := by
    intro fin hstands
    refine .bind ((reaches_importExport hctx hid hstands).lift fun _ _ ↦ .place) fun r s₂ hs₂ h ↦ ?_
    have hr : ∀ x ∈ (TypeSig.reference r).ids, s₂.target.Has x := fun x hx ↦ by
      rw [List.mem_singleton.mp hx]
      exact h.2
    have hlead : ExportStep ctx s₂ { s₂ with
        map := s₂.map.record m (.export ((ctx.module m).exportName id)) (.type (.reference r)) } :=
      ⟨.lead hr, rfl, rfl, .inr rfl⟩
    have hemitted₂ := hemitted.mono (LateStep.grows_steps (ExportStep.late_steps hs₂)).target
    refine .run_bind rfl (.single hlead) ?_
    split
    · exact .pure hemitted₂
    · exact reaches_emitExport (hlead.late.sound (ExportStep.sound_steps hs₂ hs)) hemitted₂ h.2
  cases fin with
  | defined d type =>
    refine .bind ((reaches_ensureDeclared hctx hs hstands).lift fun _ _ ↦ .place)
      fun t s₂ hs₂ h ↦ ?_
    have hsound₂ := ExportStep.sound_steps hs₂ hs
    have hlead : ExportStep ctx s₂ { s₂ with
        map := s₂.map.record m (.export ((ctx.module m).exportName id)) (.type (.definition t)) } :=
      ⟨.lead (hsound₂.has_place h.2), rfl, rfl, .inr rfl⟩
    refine .run_bind rfl ((ReflTransGen.single hlead).tail ⟨.note rfl rfl rfl, rfl, rfl, .inr rfl⟩)
      (.pure ?_)
    exact hemitted.mono (LateStep.grows_steps (ExportStep.late_steps hs₂)).target
  | external _ _ | unresolved => exact hother _ hstands

theorem reaches_resolveExports (hs : s.Sound ctx) :
    Reaches (ExportStep ctx) s (resolveExports ctx) fun _ _ ↦ True := by
  unfold resolveExports
  have hempty : ExportTable.Within {} s.target := fun _ _ he ↦ by cases he
  refine .bind (.foldlM (J := fun _ emitted s' ↦ emitted.Within s'.target) hempty
    fun done x emitted s' hpre hs' h ↦ ?_) fun _ _ _ _ ↦ .pure trivial
  have hid := (mem_pairs.mp (mem_of_initial hpre)).2
  exact reaches_resolveExport hctx (ExportStep.sound_steps hs' hs) h hid

end Accepted

end Import

end ModuleLinker
