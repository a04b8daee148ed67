import ModuleLinker.Proofs.Image.Exports
import ModuleLinker.Proofs.Import.Exported
import ModuleLinker.Proofs.Import.Run
import ModuleLinker.Proofs.Table

/-!
# What resolving an export comes to

An export is resolved, passed over or listed again. Each of the three is told apart by what the
inputs are like and by the names that have been listed before, and each says what becomes of the
output's exports, of the entries of exports and of the table of listed names. Nothing is asked of
the state that it begins with.
-/

namespace ModuleLinker

open Relation (ReflTransGen)

/-- The exports of all modules, in the order in which they are resolved. -/
def Context.exports (ctx : Context) : List (ModuleId × ExportId) :=
  ctx.registry.importOrder.flatMap fun m ↦ (ctx.module m).exportIds.map fun id ↦ (m, id)

/-- An export forwards, and its name leads to a type of the link. -/
structure Context.Leads (ctx : Context) (m : ModuleId) (id : ExportId) (d : ModuleId)
    (type : TypeId) : Prop where
  forwards : (ctx.module m).exportForwards id = true
  walk : ctx.followForwarders m ((ctx.module m).exportName id) = .ok (.defined d type)

/-- An export does not forward, or its name leads to no type of the link. -/
def Context.LeadsOut (ctx : Context) (m : ModuleId) (id : ExportId) : Prop :=
  (ctx.module m).exportForwards id = true →
    ∃ fin, ctx.followForwarders m ((ctx.module m).exportName id) = .ok fin
      ∧ ∀ d type, fin ≠ .defined d type

theorem Context.LeadsOut.not_leads {ctx : Context} {m : ModuleId} {id : ExportId}
    (h : ctx.LeadsOut m id) (d : ModuleId) (type : TypeId) : ¬ctx.Leads m id d type := by
  intro hleads
  obtain ⟨fin, hfin, hne⟩ := h hleads.forwards
  exact hne d type (Except.ok.inj (hfin.symm.trans hleads.walk))

theorem Context.mem_exports {ctx : Context} {m : ModuleId} {id : ExportId} :
    (m, id) ∈ ctx.exports
      ↔ m.index < ctx.registry.size ∧ id.index < (ctx.module m).exportedTypes.length := by
  simp [exports, Registry.mem_importOrder]

theorem Context.pairwise_exports (ctx : Context) :
    ctx.exports.Pairwise fun x y ↦ x.1 = y.1 → x.2.index < y.2.index := by
  unfold Context.exports
  rw [List.pairwise_flatMap]
  constructor
  · intro m _
    rw [List.pairwise_map, Module.exportIds, List.pairwise_map]
    exact List.pairwise_lt_range.imp fun hlt _ ↦ by exact hlt
  · refine ctx.registry.nodup_importOrder.imp fun hne x hx y hy heq ↦ ?_
    obtain ⟨_, -, rfl⟩ := List.mem_map.mp hx
    obtain ⟨_, -, rfl⟩ := List.mem_map.mp hy
    exact absurd heq hne

namespace Import

variable {ctx : Context} {s s' : ImportState} {m : ModuleId} {id : ExportId}

theorem sameExports_of_ensureDeclared {type target : TypeId}
    (h : ensureDeclared ctx m type s = .ok target s') : s.SameExports s' := by
  rw [ensureDeclared_eq, deciding_eq_ok_iff] at h
  have hsame := s.sameExports_ensureChain ctx m ((ctx.module m).declaringChain type)
  rwa [h.1] at hsame

/-! ## References for exports

An export that leads out of the link becomes a reference before it is decided whether it is listed
again. That fails for a circle of declaring exports and leaves the exports alone. -/

theorem referExport_eq_ok {t : Target} {source : Module} {root : Scope} {x : TypeRefId × Target}
    (h : t.referExport source root id = .ok x) :
    source.exportLoop? id = none ∧ t.referChain source root (source.exportChain id) = x := by
  unfold Target.referExport at h
  cases hloop : source.exportLoop? id with
  | some repeated => simp [hloop] at h
  | none => exact ⟨rfl, by simpa [hloop] using h⟩

theorem outer?_scope_referChain {source : Module} {root : Scope} (hroot : root.outer? = none)
    (hloop : source.exportLoop? id = none) (t : Target) :
    (Module.typeRef (t.referChain source root (source.exportChain id)).2
        (t.referChain source root (source.exportChain id)).1).scope.outer? = none
      ↔ source.exportOuter? id = none := by
  cases houter : source.exportOuter? id with
  | none =>
    rw [Module.exportChain_of_top houter, Target.referChain, Target.typeRef_internTypeRef]
    simp [hroot]
  | some outer =>
    obtain ⟨rest, hrest⟩ := source.exportChain_eq_cons outer
    rw [Module.exportChain_of_nested hloop houter, hrest, Target.referChain,
      Target.typeRef_internTypeRef]
    simp [Scope.outer?]

theorem sameExports_exportScope (a : Option AssemblyRefId) :
    Reaches ImportState.SameExports s (exportScope ctx m a) fun scope _ ↦ scope.outer? = none := by
  unfold exportScope
  cases a with
  | none => exact .pure rfl
  | some a =>
    have hsame := ImportState.SameExports.of_target (s := s)
      (s.target.exportedTypes_resolveAssembly ctx m a)
    refine .run_bind rfl (.single hsame) ?_
    dsimp only
    split <;> exact .pure rfl

theorem sameExports_referExport {root : Scope} (hroot : root.outer? = none) (id : ExportId) :
    Reaches ImportState.SameExports s (do
      let (r, target) ← ofExcept ((← get).target.referExport (ctx.module m) root id)
      modifyTarget fun _ ↦ target
      return r) fun r s' ↦ (ctx.module m).exportLoop? id = none
        ∧ ((Module.typeRef s'.target r).scope.outer? = none
          ↔ (ctx.module m).exportOuter? id = none) := by
  refine .get_bind (.bind (.ofExcept (Q := fun x s' ↦ s' = s
    ∧ s.target.referExport (ctx.module m) root id = .ok x) fun x hx ↦ ⟨rfl, hx⟩)
    fun x s' _ h ↦ ?_)
  obtain ⟨rfl, hx⟩ := h
  obtain ⟨hloop, rfl⟩ := referExport_eq_ok hx
  have hsame := ImportState.SameExports.of_target (s := s')
    (s'.target.exportedTypes_referChain (ctx.module m) root ((ctx.module m).exportChain id))
  exact .run_bind rfl (.single hsame)
    (.pure ⟨hloop, outer?_scope_referChain hroot hloop s'.target⟩)

theorem sameExports_importExport (fin : ForwardEnd) :
    Reaches ImportState.SameExports s (importExport ctx m id fin) fun r s' ↦
      (ctx.module m).exportLoop? id = none
        ∧ ((Module.typeRef s'.target r).scope.outer? = none
          ↔ (ctx.module m).exportOuter? id = none) := by
  unfold importExport
  cases fin with
  | external f a =>
    exact .bind (sameExports_exportScope (some a)) fun _ _ _ hroot ↦
      sameExports_referExport hroot id
  | defined _ _ | unresolved =>
    exact .bind (sameExports_exportScope _) fun _ _ _ hroot ↦ sameExports_referExport hroot id

/-! ## The outcome

The three outcomes are told apart by what the inputs say, as far as they can be: whether the
export leads into the link, and whether the policy shows its name. Only for a nested export the
output is asked as well, for the export that declares it. -/

/-- Enter what an export became. -/
def enterExport (s : ImportState) (m : ModuleId) (qualified : String) (sig : TypeSig) :
    ImportState :=
  { s with map := s.map.record m (.export qualified) (.type sig) }

/-- Note that an export leads to a type of the link. -/
def noteResolved (s : ImportState) (m : ModuleId) (qualified : String) : ImportState :=
  { s with map := s.map.markResolved m qualified }

/-- List an export. -/
def listExport (s : ImportState) (e : ExportedType) : ImportState :=
  { s with target := (s.target.addExportedType e).2 }

/-- Why an export that leads nowhere in the link is not listed. -/
inductive PassedOver (ctx : Context) (emitted : ExportTable) (m : ModuleId) (id : ExportId) : Prop
  /-- The policy hides its name. -/
  | hidden (h : ctx.policy.hidesName ((ctx.module m).exportName id) (ctx.internalizes m) = true)
  /-- Its name is listed. -/
  | known (h : (ctx.module m).exportName id ∈ emitted.keys)
  /-- The name of the export that declares it is not listed. -/
  | orphan {outer : ExportId} (houter : (ctx.module m).exportOuter? id = some outer)
      (h : emitted.find? ((ctx.module m).exportName outer) = none)

/-- Where an export lives that is listed again: at the top, or inside the export that is listed
under the name of the one that declares it. -/
def Settles (emitted : ExportTable) (source : Module) (id : ExportId) : ExportTarget → Prop
  | .declaring e => ∃ outer, source.exportOuter? id = some outer
      ∧ emitted.find? (source.exportName outer) = some e
  | _ => source.exportOuter? id = none

/-- What resolving an export comes to. -/
inductive ExportOutcome (ctx : Context) (emitted : ExportTable) (m : ModuleId) (id : ExportId)
    (s : ImportState) : ExportTable → ImportState → Prop
  /-- It leads to a type of the link, which is placed. -/
  | resolved {d : ModuleId} {type target : TypeId} {s₁ : ImportState} (h : ctx.Leads m id d type)
      (hplace : ensureDeclared ctx d type s = .ok target s₁) :
      ExportOutcome ctx emitted m id s emitted
        (noteResolved (enterExport s₁ m ((ctx.module m).exportName id) (.definition target))
          m ((ctx.module m).exportName id))
  /-- It becomes a reference and is not listed. -/
  | passedOver {r : TypeRefId} {s₁ : ImportState} (hout : ctx.LeadsOut m id)
      (hsame : s.SameExports s₁) (hpassed : PassedOver ctx emitted m id) :
      ExportOutcome ctx emitted m id s emitted
        (enterExport s₁ m ((ctx.module m).exportName id) (.reference r))
  /-- It becomes a reference and is listed under its name. -/
  | listed {r : TypeRefId} {s₁ : ImportState} {implementation : ExportTarget}
      (hout : ctx.LeadsOut m id) (hsame : s.SameExports s₁)
      (hshown : ctx.policy.hidesName ((ctx.module m).exportName id) (ctx.internalizes m) = false)
      (hnew : emitted.find? ((ctx.module m).exportName id) = none)
      (hloop : (ctx.module m).exportLoop? id = none)
      (hsettles : Settles emitted (ctx.module m) id implementation) :
      ExportOutcome ctx emitted m id s
        (emitted.insertNew ((ctx.module m).exportName id) ⟨s₁.target.exportedTypes.length⟩)
        (listExport (enterExport s₁ m ((ctx.module m).exportName id) (.reference r))
          { (ctx.module m).exportedType id with implementation })

/-- Where the forwarders of an export lead is a type of the link, or the export leads out. -/
theorem exportEnd_eq_ok {fin : ForwardEnd} (h : exportEnd ctx m id s = .ok fin s') :
    s' = s ∧ ((∃ d type, fin = .defined d type ∧ ctx.Leads m id d type)
      ∨ (∀ d type, fin ≠ .defined d type) ∧ ctx.LeadsOut m id) := by
  unfold exportEnd at h
  cases hforwards : (ctx.module m).exportForwards id with
  | false =>
    rw [hforwards] at h
    cases h
    refine ⟨rfl, .inr ⟨by simp, fun hforwards' ↦ ?_⟩⟩
    rw [hforwards'] at hforwards
    cases hforwards
  | true =>
    rw [hforwards] at h
    cases hwalk : ctx.followForwarders m ((ctx.module m).exportName id) with
    | error e =>
      rw [hwalk] at h
      cases h
    | ok fin' =>
      rw [hwalk] at h
      cases h
      refine ⟨rfl, ?_⟩
      cases fin with
      | defined d type => exact .inl ⟨d, type, rfl, hforwards, hwalk⟩
      | external _ _ | unresolved => exact .inr ⟨by simp, fun _ ↦ ⟨_, hwalk, by simp⟩⟩

/-- An export settles as soon as the scope of its reference lets it. -/
theorem settles_of_target? {emitted : ExportTable} {source : Module} {scope : Scope}
    (hscope : scope.outer? = none ↔ source.exportOuter? id = none) {implementation : ExportTarget}
    (h : emitted.target? source (source.exportedType id) scope = some implementation) :
    Settles emitted source id implementation := by
  cases scope with
  | assembly a | «local» =>
    cases h
    exact hscope.mp rfl
  | nested o =>
    simp only [ExportTable.target?, Option.bind_eq_bind, Option.bind_eq_some_iff] at h
    obtain ⟨outer, houter, found, hfound, heq⟩ := h
    cases heq
    exact ⟨outer, houter, hfound⟩

/-- An export whose reference has no place for it is nested in one that is not listed. -/
theorem orphan_of_target? {emitted : ExportTable} {source : Module} {scope : Scope}
    (hscope : scope.outer? = none ↔ source.exportOuter? id = none)
    (h : emitted.target? source (source.exportedType id) scope = none) :
    ∃ outer, source.exportOuter? id = some outer
      ∧ emitted.find? (source.exportName outer) = none := by
  cases scope with
  | assembly a | «local» => cases h
  | nested o =>
    cases houter : source.exportOuter? id with
    | none => cases hscope.mpr houter
    | some outer =>
      refine ⟨outer, rfl, Option.eq_none_iff_forall_ne_some.mpr ?_⟩
      rw [Module.exportOuter?] at houter
      simpa [ExportTable.target?, houter] using h

/-- Exporting again lists the export, unless it is nested in one that is not listed. -/
theorem emitExport_eq_ok {emitted emitted' : ExportTable} {source : Module} {r : TypeRefId}
    (hscope : (Module.typeRef s.target r).scope.outer? = none ↔ source.exportOuter? id = none)
    (h : emitExport emitted source id r s = .ok emitted' s') :
    (∃ outer, source.exportOuter? id = some outer
        ∧ emitted.find? (source.exportName outer) = none ∧ emitted' = emitted ∧ s' = s)
      ∨ ∃ implementation, Settles emitted source id implementation
        ∧ emitted' = emitted.insertNew (source.exportName id) ⟨s.target.exportedTypes.length⟩
        ∧ s' = listExport s { source.exportedType id with implementation } := by
  unfold emitExport at h
  obtain ⟨scope, s₁, hs₁, h⟩ := bind_eq_ok h
  cases hs₁
  cases htarget : emitted.target? source (source.exportedType id)
      (Module.typeRef s.target r).scope with
  | none =>
    obtain ⟨outer, houter, hfind⟩ := orphan_of_target? hscope htarget
    rw [htarget] at h
    cases h
    exact .inl ⟨outer, houter, hfind, rfl, rfl⟩
  | some implementation =>
    rw [htarget] at h
    cases h
    exact .inr ⟨implementation, settles_of_target? hscope htarget, rfl, rfl⟩

theorem outcome_of_reference {emitted emitted' : ExportTable} {fin : ForwardEnd}
    (hout : ctx.LeadsOut m id)
    (h : (do
      let r ← importExport ctx m id fin
      modifyMap fun map ↦
        map.record m (.export ((ctx.module m).exportName id)) (.type (.reference r))
      if ctx.policy.hidesName ((ctx.module m).exportName id) (ctx.internalizes m)
          || emitted.contains ((ctx.module m).exportName id) then
        return emitted
      else emitExport emitted (ctx.module m) id r : Import ExportTable) s = .ok emitted' s') :
    ExportOutcome ctx emitted m id s emitted' s' := by
  obtain ⟨r, s₁, hr, h⟩ := bind_eq_ok h
  obtain ⟨hsteps, hloop, hscope⟩ := (sameExports_importExport fin).of_ok hr
  have hsame := ImportState.SameExports.of_steps hsteps
  obtain ⟨_, s₂, hs₂, h⟩ := bind_eq_ok h
  cases hs₂
  by_cases hhidden : ctx.policy.hidesName ((ctx.module m).exportName id) (ctx.internalizes m) = true
  · rw [hhidden, Bool.true_or, if_pos rfl] at h
    cases h
    exact .passedOver hout hsame (.hidden hhidden)
  · rw [Bool.not_eq_true] at hhidden
    by_cases hknown : (ctx.module m).exportName id ∈ emitted.keys
    · rw [Table.contains_iff_mem_keys.mpr hknown, Bool.or_true, if_pos rfl] at h
      cases h
      exact .passedOver hout hsame (.known hknown)
    · have hcontains := mt Table.contains_iff_mem_keys.mp hknown
      rw [hhidden, Bool.false_or, if_neg hcontains] at h
      rcases emitExport_eq_ok
        (s := enterExport s₁ m ((ctx.module m).exportName id) (.reference r)) hscope h with
        ⟨outer, houter, hfind, rfl, rfl⟩ | ⟨implementation, hsettles, rfl, rfl⟩
      · exact .passedOver hout hsame (.orphan houter hfind)
      · exact .listed hout hsame hhidden (Table.find?_eq_none_iff.mpr hknown) hloop hsettles

/-- Resolving an export has one of three outcomes. -/
theorem outcome_of_resolveExport {emitted emitted' : ExportTable}
    (h : resolveExport ctx emitted m id s = .ok emitted' s') :
    ExportOutcome ctx emitted m id s emitted' s' := by
  unfold resolveExport at h
  obtain ⟨fin, s₁, hfin, h⟩ := bind_eq_ok h
  obtain ⟨rfl, ⟨d, type, rfl, hleads⟩ | ⟨hne, hout⟩⟩ := exportEnd_eq_ok hfin
  · obtain ⟨target, s₂, hplace, h⟩ := bind_eq_ok h
    cases h
    exact .resolved hleads hplace
  · cases fin with
    | defined d type => exact absurd rfl (hne d type)
    | external _ _ | unresolved => exact outcome_of_reference hout h

/-- When all exports could be resolved, what resolving each of them keeps has been kept. -/
theorem resolveExports_induction {J : List (ModuleId × ExportId) → ExportTable → ImportState → Prop}
    (h : resolveExports ctx s = .ok () s') (h₀ : J [] {} s)
    (hstep : ∀ {done m id emitted emitted' s s'}, done ++ [(m, id)] <+: ctx.exports →
      J done emitted s → resolveExport ctx emitted m id s = .ok emitted' s' →
      J (done ++ [(m, id)]) emitted' s') :
    ∃ emitted, J ctx.exports emitted s' := by
  unfold resolveExports at h
  obtain ⟨emitted, s₁, hfold, h⟩ := bind_eq_ok h
  cases h
  exact ⟨emitted, foldlM_eq_ok h₀ (fun _ _ _ _ _ _ hpre hJ hround ↦ hstep hpre hJ hround) hfold⟩

end Import

end ModuleLinker
