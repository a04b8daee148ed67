import ModuleLinker.Import.Exports
import ModuleLinker.Import.Initializer
import ModuleLinker.Proofs.Import.RenumberTypes

/-!
# A whole import under other numbers

The passes over the types and the bodies, the folding of the initializers and the resolution of the
exports go through the modules in import order, which is the same order under other numbers. So a
whole import goes the same way as before, and leaves what it left before under other numbers.
-/

namespace ModuleLinker

/-- A combined routine under other numbers. -/
def Folding.renumber (ρ : ModuleId → ModuleId) (f : Folding) : Folding :=
  { f with blocks := f.blocks.map (Block.renumber ρ) }

theorem Folding.append_renumber {ρ : ModuleId → ModuleId} (f : Folding) (m : ModuleId)
    (block : List Instruction) :
    (f.renumber ρ).append (ρ m) block = (f.append m block).renumber ρ := by
  simp [append, renumber, Block.renumber]

namespace Import

variable {ρ : ModuleId → ModuleId} {ctx ctx' : Context}

section Types

variable (h : ctx.Renumbers ρ ctx') (m : ModuleId)
include h

/-! ## Types and bodies

The sweeps go through modules in import order, which is the same for both numberings. So they are
loops over lists that correspond, and each round goes the same way. -/

theorem renumbered_importHierarchy (type target : TypeId) :
    Renumbered ρ Eq (importHierarchy ctx m type target)
      (importHierarchy ctx' (ρ m) type target) := by
  have hpair : Function.Injective (Option.map (Prod.map ρ (id : TypeId → TypeId))) :=
    Option.map_injective (h.registry.injective.prodMap Function.injective_id)
  have hown : ∀ first : Option (ModuleId × TypeId),
      first.map (Prod.map ρ id) = some (ρ m, type) ↔ first = some (m, type) :=
    fun first ↦ hpair.eq_iff (b := some (m, type))
  unfold importHierarchy
  simp only [h.module_eq]
  refine .bind (V := fun o o' ↦ o' = o.map (Prod.map ρ id)) (Renumbered.ofMap fun map ↦ ?_) ?_
  · rw [map.sourcesOf_renumber, List.head?_map]
  · rintro first _ rfl
    simp only [hown]
    by_cases hfirst : first = some (m, type)
    · rw [if_pos hfirst, if_pos hfirst]
      refine .bind_eq (renumbered_importSig? h m _) fun base ↦ ?_
      exact .bind_eq (renumbered_importSigs h m _) fun interfaces ↦ Renumbered.modifyTarget
    · rw [if_neg hfirst, if_neg hfirst]
      exact .pure rfl

theorem isFoldedLater_renumber (owner : TypeId) (id : MethodId) :
    isFoldedLater ctx' (ρ m) owner id = isFoldedLater ctx m owner id := by
  simp only [isFoldedLater, h.module_eq, h.registry.isPrimary_eq]

theorem renumbered_populate (id : TypeId) :
    Renumbered ρ Eq (populate ctx m id) (populate ctx' (ρ m) id) := by
  unfold populate
  refine .bind .get ?_
  rintro s _ rfl
  rw [s.contains_populated_renumber h.registry.injective]
  cases s.populated.contains (m, id) with
  | true => exact .pure rfl
  | false =>
    simp only [h.module_eq, isFoldedLater_renumber h]
    refine .bind_eq (.modify fun hs ↦ by rw [hs]; rfl) fun _ ↦ ?_
    refine .bind_eq (renumbered_ensureDeclared h m id) fun target ↦ ?_
    refine .bind_eq (renumbered_importHierarchy h m id target) fun _ ↦ ?_
    refine .bind_eq (.forM_same fun field _ ↦ renumbered_importField h m field target) fun _ ↦ ?_
    refine .forM_same fun method _ ↦ ?_
    cases isFoldedLater ctx m id method with
    | true => exact .pure rfl
    | false => exact renumbered_importMethod h m method target

theorem renumbered_importBody (body : Body) :
    Renumbered ρ Eq (importBody ctx m body) (importBody ctx' (ρ m) body) := by
  refine .bind_eq (.mapM_same fun i _ ↦ renumbered_importInstruction h m i) fun instructions ↦ ?_
  exact .bind_eq (renumbered_importSigs h m _) fun locals ↦ .pure rfl

theorem renumbered_copyBody (id : MethodId) :
    Renumbered ρ Eq (copyBody ctx m id) (copyBody ctx' (ρ m) id) := by
  have hρ := h.registry.injective
  unfold copyBody
  refine .bind .get ?_
  rintro s _ rfl
  rw [s.contains_copied_renumber hρ]
  cases s.copied.contains (m, id) with
  | true => exact .pure rfl
  | false =>
    simp only [h.module_eq]
    refine .bind_eq (.modify fun hs ↦ by rw [hs]; rfl) fun _ ↦ ?_
    cases ((ctx.module m).method id).body with
    | none => exact .pure rfl
    | some body =>
      refine .bind_eq (Renumbered.ofMap_eq fun map ↦ map.methodOf?_renumber m hρ id)
        fun handle ↦ ?_
      cases handle with
      | none => exact .pure rfl
      | some handle =>
        cases handle with
        | reference _ => exact .pure rfl
        | definition target =>
          refine .bind (V := fun o o' ↦ o' = o.map ρ)
            (Renumbered.ofMap fun map ↦ map.methodOrigin?_renumber target) ?_
          rintro origin _ rfl
          have hown : origin.map ρ = some (ρ m) ↔ origin = some m :=
            (Option.map_injective hρ).eq_iff (b := some m)
          simp only [hown]
          by_cases horigin : origin = some m
          · rw [if_pos horigin, if_pos horigin]
            exact .bind_eq (renumbered_importBody h m body) fun _ ↦ Renumbered.modifyTarget
          · rw [if_neg horigin, if_neg horigin]
            exact .pure rfl

theorem renumbered_declareModule :
    Renumbered ρ Eq (declareModule ctx m) (declareModule ctx' (ρ m)) := by
  unfold declareModule
  rw [h.module_eq]
  refine .forM_same fun id _ ↦
    .deciding (congrArg Module.name (h.module_eq m)) (h.decides_eq m) fun hs ↦ ?_
  rw [hs, ImportState.declare_renumber h, h.internalizesType_eq]
  exact ⟨rfl, rfl, congrArg (id :: ·) (ImportState.listedSince_renumber h m _ _)⟩

end Types

section Run

variable (h : ctx.Renumbers ρ ctx')
include h

theorem renumbered_run : Renumbered ρ Eq (run ctx) (run ctx') := by
  unfold run
  rw [h.registry.importOrder_eq]
  refine .bind_eq (.forM_map fun m ↦ renumbered_declareModule h m) fun _ ↦ ?_
  refine .bind_eq (.forM_map fun m ↦ ?_) fun _ ↦ .forM_map fun m ↦ ?_
  · rw [h.module_eq]
    exact .forM_same fun id _ ↦ renumbered_populate h m id
  · rw [h.module_eq]
    exact .forM_same fun id _ ↦ renumbered_copyBody h m id

end Run

/-! ## Initializers

Blocks name the modules that they are from. Under other numbers the same blocks are recorded, with
the other number in each. -/

theorem renumbered_moveInstructions {carry carry' : Operand → Import Operand}
    (hcarry : ∀ operand, Renumbered ρ Eq (carry operand) (carry' operand)) (name : RoutineName)
    (is : List Instruction) (first : Nat) : Renumbered ρ Eq
      (moveInstructions carry name is first) (moveInstructions carry' name is first) := by
  refine .bind_eq (.mapM_same fun i _ ↦ ?_) fun carried ↦ .ofExcept_same
  unfold carryInstruction
  by_cases hret : i.opcode = .ret
  · rw [if_pos hret, if_pos hret]
    exact .pure rfl
  · rw [if_neg hret, if_neg hret]
    exact .bind_eq (hcarry _) fun _ ↦ .pure rfl

section Initializers

variable (h : ctx.Renumbers ρ ctx')
include h

theorem renumbered_importFoldedOperand (m : ModuleId) (name : RoutineName) (operand : Operand) :
    Renumbered ρ Eq (importFoldedOperand ctx m name operand)
      (importFoldedOperand ctx' (ρ m) name operand) := by
  unfold importFoldedOperand
  cases operand with
  | «local» => exact .throw
  | argument => exact .throw
  | signature => exact .throw
  | _ => exact renumbered_importOperand h m _

theorem renumbered_foldSecondary (f : Folding) (m : ModuleId) (id : MethodId) :
    Renumbered ρ (fun f f' ↦ f' = f.renumber ρ) (foldSecondary ctx f m id)
      (foldSecondary ctx' (f.renumber ρ) (ρ m) id) := by
  unfold foldSecondary
  simp only [h.module_eq]
  cases ((ctx.module m).method id).body with
  | none => exact .pure rfl
  | some body =>
    refine .bind_eq (renumbered_moveInstructions
      (renumbered_importFoldedOperand h m _) _ _ _) fun block ↦ ?_
    refine .bind_eq (Renumbered.modifyMap fun map ↦ ?_) fun _ ↦ .pure (f.append_renumber m block)
    exact map.markFolded_renumber m h.registry.injective id

theorem renumbered_foldPrimary (f : Folding) (body : Body) :
    Renumbered ρ (fun f f' ↦ f' = f.renumber ρ) (foldPrimary ctx f body)
      (foldPrimary ctx' (f.renumber ρ) body) := by
  unfold foldPrimary
  simp only [h.targetName_eq, h.registry.primary?_eq]
  refine .bind_eq (renumbered_moveInstructions (fun _ ↦ .pure rfl) _ _ _) fun block ↦ ?_
  cases ctx.registry.primary? with
  | none => exact .pure rfl
  | some primary => exact .pure (f.append_renumber primary block)

theorem secondaryInitializers_renumber : secondaryInitializers ctx'
    = (secondaryInitializers ctx).map (Prod.map ρ id) := by
  rw [secondaryInitializers, secondaryInitializers, h.registry.secondaries_eq,
    List.filterMap_map, List.map_filterMap]
  refine List.filterMap_congr fun m _ ↦ ?_
  rw [Function.comp_apply, h.module_eq]
  cases (ctx.module m).initializer? <;> rfl

theorem importedInitializer?_renumber (map : SymbolMap) :
    importedInitializer? ctx' (map.renumber ρ) = importedInitializer? ctx map := by
  unfold importedInitializer?
  rw [h.registry.primary?_eq]
  cases ctx.registry.primary? with
  | none => rfl
  | some primary =>
    simp only [Option.map_some, Option.bind_eq_bind, Option.bind_some, h.module_eq,
      map.methodOf?_renumber primary h.registry.injective]

theorem renumbered_combineInitializers :
    Renumbered ρ Eq (combineInitializers ctx) (combineInitializers ctx') := by
  have hempty : (secondaryInitializers ctx').isEmpty = (secondaryInitializers ctx).isEmpty := by
    rw [secondaryInitializers_renumber h, List.isEmpty_map]
  unfold combineInitializers
  simp only [hempty]
  cases (secondaryInitializers ctx).isEmpty with
  | true => exact .pure rfl
  | false =>
    refine .bind_eq (Renumbered.ofMap_eq (importedInitializer?_renumber h)) fun existing ↦ ?_
    refine .bind_eq Renumbered.updateTarget fun owner ↦ .bind_eq Renumbered.ofTarget fun own ↦ ?_
    refine .bind (V := fun f f' ↦ f' = Folding.renumber ρ f) ?_ ?_
    · rw [secondaryInitializers_renumber h]
      refine .foldlM_map rfl ?_
      rintro f _ e rfl
      exact renumbered_foldSecondary h f e.1 e.2
    · rintro folded _ rfl
      have hset : ∀ f f' : Folding, f' = f.renumber ρ → Renumbered ρ Eq
          (do
            let id ← setInitializer existing owner
              { instructions := f.instructions ++ [.ret], locals := (own.map Body.locals).getD [] }
            modifyMap fun map ↦ f.blocks.foldl (fun map b ↦ map.recordBlock id b) map)
          (do
            let id ← setInitializer existing owner
              { instructions := f'.instructions ++ [.ret], locals := (own.map Body.locals).getD [] }
            modifyMap fun map ↦ f'.blocks.foldl (fun map b ↦ map.recordBlock id b) map) := by
        rintro f _ rfl
        refine .bind_eq Renumbered.updateTarget fun id ↦ Renumbered.modifyMap fun map ↦ ?_
        exact map.recordBlocks_renumber id f.blocks
      cases own with
      | none => exact .bind (.pure rfl) hset
      | some body => exact .bind (renumbered_foldPrimary h folded body) hset

end Initializers

/-! ## Exports -/

section Exports

variable (h : ctx.Renumbers ρ ctx')
include h

theorem renumbered_exportScope (m : ModuleId) (assembly : Option AssemblyRefId) :
    Renumbered ρ Eq (exportScope ctx m assembly) (exportScope ctx' (ρ m) assembly) := by
  cases assembly with
  | none => exact .pure rfl
  | some a =>
    refine .bind (renumbered_resolveAssembly h m a) ?_
    rintro resolution _ rfl
    cases resolution with
    | external a => exact .pure rfl
    | merged _ => exact .pure rfl

theorem renumbered_exportEnd (m : ModuleId) (id : ExportId) :
    Renumbered ρ (fun fin fin' ↦ fin' = fin.renumber ρ) (exportEnd ctx m id)
      (exportEnd ctx' (ρ m) id) := by
  unfold exportEnd
  rw [h.module_eq, h.followForwarders_eq]
  by_cases hforwards : (ctx.module m).exportForwards id = true
  · rw [if_pos hforwards, if_pos hforwards]
    exact .ofExcept
  · rw [if_neg hforwards, if_neg hforwards]
    exact .pure rfl

theorem renumbered_importExport (m : ModuleId) (id : ExportId) (fin : ForwardEnd) :
    Renumbered ρ Eq (importExport ctx m id fin) (importExport ctx' (ρ m) id (fin.renumber ρ)) := by
  unfold importExport
  simp only [h.module_eq]
  cases fin with
  | defined _ _ | external _ _ | unresolved =>
    refine .bind_eq (renumbered_exportScope h _ _) fun root ↦ .bind .get ?_
    rintro s _ rfl
    refine .bind_eq .ofExcept_same fun r ↦ ?_
    exact .bind_eq Renumbered.modifyTarget fun _ ↦ .pure rfl

omit h in
theorem renumbered_emitExport (emitted : ExportTable) (m : Module) (id : ExportId)
    (r : TypeRefId) :
    Renumbered ρ Eq (emitExport emitted m id r) (emitExport emitted m id r) := by
  unfold emitExport
  refine .bind_eq Renumbered.ofTarget fun scope ↦ ?_
  cases emitted.target? m (m.exportedType id) scope with
  | none => exact .pure rfl
  | some implementation => exact .bind_eq Renumbered.updateTarget fun added ↦ .pure rfl

theorem renumbered_resolveExport (emitted : ExportTable) (m : ModuleId) (id : ExportId) :
    Renumbered ρ Eq (resolveExport ctx emitted m id) (resolveExport ctx' emitted (ρ m) id) := by
  have hρ := h.registry.injective
  have hemit : ∀ fin : ForwardEnd, Renumbered ρ Eq
      (do
        let r ← importExport ctx m id fin
        modifyMap fun map ↦ map.record m (.export ((ctx.module m).exportName id))
          (.type (.reference r))
        if ctx.policy.hidesName ((ctx.module m).exportName id) (ctx.internalizes m)
            || emitted.contains ((ctx.module m).exportName id) then
          return emitted
        else emitExport emitted (ctx.module m) id r)
      (do
        let r ← importExport ctx' (ρ m) id (fin.renumber ρ)
        modifyMap fun map ↦ map.record (ρ m) (.export ((ctx.module m).exportName id))
          (.type (.reference r))
        if ctx.policy.hidesName ((ctx.module m).exportName id) (ctx.internalizes m)
            || emitted.contains ((ctx.module m).exportName id) then
          return emitted
        else emitExport emitted (ctx.module m) id r) := fun fin ↦ by
    refine .bind_eq (renumbered_importExport h m id fin) fun r ↦ ?_
    refine .bind_eq (Renumbered.record hρ m _ _) fun _ ↦ ?_
    split
    · exact .pure rfl
    · exact renumbered_emitExport _ _ _ _
  unfold resolveExport
  simp only [h.module_eq, h.policy_eq, h.internalizes_eq]
  refine .bind (renumbered_exportEnd h m id) ?_
  rintro fin _ rfl
  cases fin with
  | defined definer type =>
    refine .bind_eq (renumbered_ensureDeclared h definer type) fun target ↦ ?_
    refine .bind_eq (Renumbered.modifyMap fun map ↦ ?_) fun _ ↦ .pure rfl
    rw [map.record_renumber m hρ, SymbolMap.markResolved_renumber _ m hρ]
  | external forwarder a => exact hemit (.external forwarder a)
  | unresolved => exact hemit .unresolved

theorem renumbered_resolveExports : Renumbered ρ Eq (resolveExports ctx) (resolveExports ctx') := by
  have hpairs : (ctx'.registry.importOrder.flatMap fun m ↦
      (ctx'.module m).exportIds.map fun id ↦ (m, id))
      = (ctx.registry.importOrder.flatMap fun m ↦
        (ctx.module m).exportIds.map fun id ↦ (m, id)).map (Prod.map ρ id) := by
    simp only [h.registry.importOrder_eq, List.flatMap_map, List.map_flatMap, List.map_map,
      h.module_eq]
    rfl
  unfold resolveExports
  rw [hpairs]
  refine .discard (V := Eq) (.foldlM_map rfl ?_)
  rintro emitted _ e rfl
  exact renumbered_resolveExport h emitted e.1 e.2

/-- An import goes the same way under other numbers. -/
theorem renumbered_all : Renumbered ρ Eq (all ctx) (all ctx') :=
  .bind_eq (renumbered_run h) fun _ ↦
    .bind_eq (renumbered_combineInitializers h) fun _ ↦ renumbered_resolveExports h

end Exports

end Import

end ModuleLinker
