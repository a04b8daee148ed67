import ModuleLinker.Proofs.Import.RenumberRun
import ModuleLinker.Proofs.Stages

/-!
# Where the primary stands

The primary is imported first wherever it stands among the inputs, so moving it gives the modules
other numbers and changes nothing else. What follows the import depends on the numbers as little as
the import does: resources are merged in import order, constants are moved by the offset of the
module that their code comes from, and locators and the report name modules by their names. So the
link of the rearranged inputs has the same result.
-/

namespace ModuleLinker

variable {ρ : ModuleId → ModuleId}

/-! ## Resources

Trees do not name modules, but the owner of an added tree and the offsets that are noted do. -/

/-- What merging found under other numbers. -/
def ResourceFindings.renumber (ρ : ModuleId → ModuleId) (f : ResourceFindings) : ResourceFindings :=
  { f with offsets := f.offsets.map ρ id }

/-- The same tree of the same module, which has another number. -/
def ResourceOwner.renumber (ρ : ModuleId → ModuleId) (o : ResourceOwner) : ResourceOwner :=
  { o with id := ρ o.id }

theorem mergeData_renumber (hρ : Function.Injective ρ) (o : ResourceOwner)
    (path : List ResourceKey) (kept added : List UInt8) (f : ResourceFindings) :
    (o.renumber ρ).mergeData path kept added (f.renumber ρ)
      = (o.mergeData path kept added f).map id (ResourceFindings.renumber ρ) := by
  have hnote : ∀ offset, (f.renumber ρ).noteOffset (ρ o.id) offset
      = (f.noteOffset o.id offset).renumber ρ := fun offset ↦
    congrArg (fun offsets ↦ { f.renumber ρ with offsets })
      (Table.insert_map (g := id) hρ f.offsets o.id (min offset (UInt32.size - 1)))
  unfold ResourceOwner.mergeData
  by_cases hblob : path = blobPath
  · rw [if_pos hblob, if_pos hblob]
    exact congrArg (kept ++ added, ·) (hnote kept.length)
  · rw [if_neg hblob, if_neg hblob]
    split <;> rfl

mutual

theorem mergeNode_renumber (hρ : Function.Injective ρ) (o : ResourceOwner)
    (path : List ResourceKey) (kept : ResourceNode) (f : ResourceFindings) :
    (added : ResourceNode) → (o.renumber ρ).mergeNode path kept (f.renumber ρ) added
      = (o.mergeNode path kept f added).map id (ResourceFindings.renumber ρ)
  | .data added => by
    cases kept with
    | data bytes =>
      rw [ResourceOwner.mergeNode, ResourceOwner.mergeNode]
      simp only [mergeData_renumber hρ]
      rfl
    | directory entries =>
      rw [ResourceOwner.mergeNode, ResourceOwner.mergeNode]
      rfl
  | .directory added => by
    cases kept with
    | data bytes =>
      rw [ResourceOwner.mergeNode, ResourceOwner.mergeNode]
      rfl
    | directory entries =>
      rw [ResourceOwner.mergeNode, ResourceOwner.mergeNode]
      simp only [mergeLevel_renumber hρ o path entries f added]
      rfl

theorem mergeEntry_renumber (hρ : Function.Injective ρ) (o : ResourceOwner)
    (path : List ResourceKey) (kept : ResourceDirectory) (f : ResourceFindings) :
    (added : ResourceKey × ResourceNode) → (o.renumber ρ).mergeEntry path kept (f.renumber ρ) added
      = (o.mergeEntry path kept f added).map id (ResourceFindings.renumber ρ)
  | (key, added) => by
    rw [ResourceOwner.mergeEntry, ResourceOwner.mergeEntry]
    cases kept.get? key with
    | none => rfl
    | some known =>
      simp only [mergeNode_renumber hρ o (path ++ [key]) known f added]
      rfl

theorem mergeLevel_renumber (hρ : Function.Injective ρ) (o : ResourceOwner)
    (path : List ResourceKey) (kept : ResourceDirectory) (f : ResourceFindings) :
    (added : ResourceDirectory) → (o.renumber ρ).mergeLevel path kept (f.renumber ρ) added
      = (o.mergeLevel path kept f added).map id (ResourceFindings.renumber ρ)
  | [] => by
    rw [ResourceOwner.mergeLevel, ResourceOwner.mergeLevel]
    rfl
  | entry :: rest => by
    rw [ResourceOwner.mergeLevel, ResourceOwner.mergeLevel]
    simp only [mergeEntry_renumber hρ o path kept f entry]
    exact mergeLevel_renumber hρ o path _ _ rest

end

/-! ## Code

Both passes ask for the module that a position is from, and then for something that belongs to
that module: an offset or a name. Under other numbers the answers are about the same modules. -/

namespace SymbolMap

variable (s : SymbolMap)

theorem codeOrigin?_renumber (id : MethodId) (position : Nat) :
    (s.renumber ρ).codeOrigin? id position = (s.codeOrigin? id position).map ρ := by
  rw [codeOrigin?, codeOrigin?, blockOrigin?_renumber, methodOrigin?_renumber]
  cases s.blockOrigin? id position <;> rfl

theorem shiftAt?_renumber (hρ : Function.Injective ρ) (offsets : Table ModuleId Nat)
    (method : MethodId) (position : Nat) :
    (s.renumber ρ).shiftAt? (offsets.map ρ id) method position
      = s.shiftAt? offsets method position := by
  unfold shiftAt?
  rw [codeOrigin?_renumber]
  cases s.codeOrigin? method position with
  | none => rfl
  | some origin =>
    have hfind : (offsets.map ρ id).find? (ρ origin) = offsets.find? origin :=
      (Table.find?_map hρ offsets origin).trans (congrFun Option.map_id _)
    change (do
      let offset ← (offsets.map ρ id).find? (ρ origin)
      if offset < Nat.pow 2 31 then return Int32.ofNat offset else none) = _
    rw [hfind]
    rfl

end SymbolMap

theorem applyOffsets_renumber (hρ : Function.Injective ρ) (m : Module) (map : SymbolMap)
    (offsets : Table ModuleId Nat) :
    applyOffsets m (map.renumber ρ) (offsets.map ρ id) = applyOffsets m map offsets := by
  have hshift : shiftOffset m (map.renumber ρ) (offsets.map ρ id) = shiftOffset m map offsets := by
    funext id is position
    simp only [shiftOffset, map.shiftAt?_renumber hρ]
  have hall : ((offsets.map ρ id).entries.all fun e ↦ e.2 = 0)
      = offsets.entries.all fun e ↦ e.2 = 0 := List.all_map
  rw [applyOffsets, applyOffsets, hshift, hall]

namespace Context.Renumbers

variable {ctx ctx' : Context} (h : ctx.Renumbers ρ ctx')
include h

theorem mergeModuleResources_eq (merged : Option ResourceDirectory × ResourceFindings)
    (m : ModuleId) :
    mergeModuleResources ctx' (merged.map id (ResourceFindings.renumber ρ)) (ρ m)
      = (mergeModuleResources ctx merged m).map id (ResourceFindings.renumber ρ) := by
  unfold mergeModuleResources
  simp only [h.module_eq]
  obtain ⟨kept, f⟩ := merged
  cases (ctx.module m).resources with
  | none => rfl
  | some tree =>
    cases kept with
    | none => rfl
    | some kept =>
      have htree := mergeLevel_renumber h.registry.injective ⟨m, (ctx.module m).name⟩ [] kept f tree
      exact congrArg (fun r : ResourceDirectory × ResourceFindings ↦ (some r.1, r.2)) htree

theorem mergeResources_eq :
    mergeResources ctx' = (mergeResources ctx).map id (ResourceFindings.renumber ρ) := by
  have hstart : ((none, {}) : Option ResourceDirectory × ResourceFindings)
      = Prod.map id (ResourceFindings.renumber ρ) (none, {}) := rfl
  rw [mergeResources, mergeResources, h.registry.importOrder_eq, List.foldl_map]
  conv_lhs => rw [hstart]
  exact List.foldl_hom _ h.mergeModuleResources_eq

theorem locatorNames_eq : ctx'.locatorNames = ctx.locatorNames := by
  simp only [locatorNames, h.targetName_eq, h.registry.secondaries_eq, List.map_map,
    Function.comp_def, h.module_eq]

theorem usesLocators_eq (m : ModuleId) : ctx'.usesLocators (ρ m) = ctx.usesLocators m := by
  rw [usesLocators, usesLocators, h.module_eq]

theorem secondaryName?_eq (m : ModuleId) : ctx'.secondaryName? (ρ m) = ctx.secondaryName? m := by
  rw [secondaryName?, secondaryName?, h.registry.isPrimary_eq, h.module_eq]

theorem patchLocators_eq (map : SymbolMap) (m : Module) :
    patchLocators ctx' (map.renumber ρ) m = patchLocators ctx map m := by
  have hpatch : patchLocator ctx' (map.renumber ρ) m = patchLocator ctx map m := by
    funext id is position
    have horigin : ((map.renumber ρ).blockOrigin? id position
        <|> (map.renumber ρ).typeOrigin? (m.method id).declaring)
        = (map.blockOrigin? id position <|> map.typeOrigin? (m.method id).declaring).map ρ := by
      rw [map.blockOrigin?_renumber, map.typeOrigin?_renumber]
      cases map.blockOrigin? id position <;> rfl
    unfold patchLocator
    simp only [horigin, h.locatorNames_eq]
    cases (map.blockOrigin? id position <|> map.typeOrigin? (m.method id).declaring) with
    | none => rfl
    | some origin =>
      simp only [Option.map_some, Option.bind_some, bind, h.usesLocators_eq, h.secondaryName?_eq]
  rw [patchLocators, patchLocators, hpatch]

/-! ## The stages of a link

Renumbering goes through a link from one end to the other. The report names modules by their
names, so at the end no number is left, and the results are equal. -/

theorem finish_eq (s : ImportState) : (s.renumber ρ).finish ctx' = s.finish ctx := by
  unfold ImportState.finish
  simp only [h.mergeResources_eq, Prod.map_fst, Prod.map_snd, id, ResourceFindings.renumber,
    ImportState.target_renumber, ImportState.map_renumber, h.patchLocators_eq,
    applyOffsets_renumber h.registry.injective]

theorem report_eq (s : ImportState) : (s.renumber ρ).report ctx' = s.report ctx := by
  have hoffsets : ∀ offsets : Table ModuleId Nat,
      (offsets.map ρ id).entries.foldl (fun byName e ↦ byName.insert (ctx'.module e.1).name e.2) {}
        = (offsets.entries.foldl (fun byName e ↦ byName.insert (ctx.module e.1).name e.2) {} :
          Table String Nat) := fun offsets ↦ by
    simp only [Table.map, List.foldl_map, Prod.map_fst, Prod.map_snd, h.module_eq, id]
  unfold ImportState.report
  simp only [h.mergeResources_eq, Prod.map_snd, ResourceFindings.renumber, hoffsets,
    ImportState.map_renumber, SymbolMap.counts_renumber]
  rfl

theorem startImport_eq : ctx'.startImport = ctx.startImport.renumber ρ := by
  rw [startImport, startImport, h.targetName_eq, h.registry.primaryModule_eq]
  rfl

/-- What a link goes through has its like under other numbers, and the result is the same. -/
theorem linkedThrough {settings : Settings} {inputs inputs' : List Input} {s : ImportState}
    {r : Linked} (hthrough : LinkedThrough settings inputs ctx s r)
    (hinputs : Registry.ofInputs inputs' = .ok ctx'.registry)
    (hsettings : Context.ofSettings settings ctx'.registry = .ok ctx') :
    LinkedThrough settings inputs' ctx' (s.renumber ρ) r := by
  refine ⟨hinputs, ?_, hsettings, ?_, ?_, ?_⟩
  · rw [h.registry.checkRuntimes_eq, hthrough.runtimes]
  · obtain ⟨_, _, hall, -, rfl⟩ :=
      (Import.renumbered_all h).of_ok h.startImport_eq hthrough.imported
    exact hall
  · rw [h.finish_eq, h.registry.combinedHash_eq, hthrough.module]
  · rw [h.report_eq, hthrough.report]

end Context.Renumbers

theorem Registry.Renumbers.exists_ofSettings {ctx : Context} {r' : Registry} {settings : Settings}
    (h : ctx.registry.Renumbers ρ r') (hctx : Context.ofSettings settings ctx.registry = .ok ctx) :
    ∃ ctx', Context.ofSettings settings r' = .ok ctx' ∧ ctx'.registry = r'
      ∧ ctx.Renumbers ρ ctx' := by
  obtain ⟨policy, hpolicy, hmade⟩ := bind_eq_ok_iff.mp hctx
  have hasked : policy = ctx.policy := congrArg Context.policy (Except.ok.inj hmade)
  have hname : settings.targetName.getD ctx.registry.primaryModule.name = ctx.targetName :=
    congrArg Context.targetName (Except.ok.inj hmade)
  refine ⟨_, bind_eq_ok_iff.mpr ⟨policy, hpolicy, rfl⟩, rfl, h, hasked, ?_⟩
  rw [h.primaryModule_eq, hname]

/-! ## The place of the primary -/

/-- Two lists hold the same primary, and the same secondary modules in the same order. -/
structure PrimaryMoved (inputs inputs' : List Input) : Prop where
  primary : inputs'.filter Input.isPrimary = inputs.filter Input.isPrimary
  secondaries : (inputs'.filter fun i ↦ !i.isPrimary) = inputs.filter fun i ↦ !i.isPrimary

namespace PrimaryMoved

variable {inputs inputs' : List Input}

theorem symm (h : PrimaryMoved inputs inputs') : PrimaryMoved inputs' inputs :=
  ⟨h.primary.symm, h.secondaries.symm⟩

theorem perm (h : PrimaryMoved inputs inputs') : inputs.Perm inputs' := by
  have hsplit := fun is : List Input ↦ List.filter_append_perm Input.isPrimary is
  refine (hsplit inputs).symm.trans (List.Perm.trans ?_ (hsplit inputs'))
  rw [h.primary, h.secondaries]

theorem exists_renumbers (h : PrimaryMoved inputs inputs') {r : Registry}
    (hinputs : Registry.ofInputs inputs = .ok r) :
    ∃ ρ r', Registry.ofInputs inputs' = .ok r' ∧ r.Renumbers ρ r' := by
  obtain ⟨hr, hone, hprimary, rfl⟩ := Registry.ofInputs_eq_ok_iff.mp hinputs
  have hr' : Registry.Accepted ⟨inputs'⟩ := by
    refine ⟨fun i hi ↦ hr.wellFormed i (h.perm.mem_iff.mpr hi), ?_⟩
    refine (h.perm.pairwise_iff fun {i j} hij ↦ ?_).mp hr.names
    rw [← Bool.not_eq_true, Text.sameName_iff] at hij ⊢
    exact fun hname ↦ hij hname.symm
  have hone' : Registry.SinglePrimary ⟨inputs'⟩ :=
    (h.perm.pairwise_iff fun {i j} hij ↦ by rwa [Bool.and_comm]).mp hone
  have hprimary' : (Registry.primary? ⟨inputs'⟩).isSome := by
    rw [Option.isSome_iff_ne_none, ne_eq, Registry.primary?_eq_none_iff] at hprimary ⊢
    exact fun hnone ↦ hprimary fun i hi ↦ hnone i (h.perm.mem_iff.mp hi)
  refine ⟨_, ⟨inputs'⟩, Registry.ofInputs_eq_ok_iff.mpr ⟨hr', hone', hprimary', rfl⟩,
    Registry.renumbers_of_importOrder hr hr' hprimary hprimary' ?_⟩
  rw [hone.map_input_importOrder, hone'.map_input_importOrder, h.primary, h.secondaries]

theorem link_eq_ok (h : PrimaryMoved inputs inputs') {settings : Settings} {r : Linked}
    (hlink : link settings inputs = .ok r) : link settings inputs' = .ok r := by
  obtain ⟨ctx, s, hthrough⟩ := link_eq_ok_iff.mp hlink
  obtain ⟨ρ, r', hinputs, hrenumbers⟩ := h.exists_renumbers hthrough.inputs
  obtain ⟨ctx', hctx', rfl, hctx⟩ := hrenumbers.exists_ofSettings hthrough.settings
  exact link_eq_ok_iff.mpr ⟨ctx', _, hctx.linkedThrough hthrough hinputs hctx'⟩

end PrimaryMoved

/-- Wherever the primary stands among the inputs, the link has the same result, if it has one. -/
theorem link_eq_ok_iff_of_primaryMoved {settings : Settings} {inputs inputs' : List Input}
    (h : PrimaryMoved inputs inputs') (r : Linked) :
    link settings inputs = .ok r ↔ link settings inputs' = .ok r :=
  ⟨h.link_eq_ok, h.symm.link_eq_ok⟩

/-- A module with one type. -/
def toolModule (name : String) : Module :=
  { name, types := [{ nspace := "Kit", name := "Tool", visibility := .public }] }

/-- Three modules that have a type of one name; the second one is the primary. -/
def primaryBetween : List Input :=
  [⟨toolModule "Lib", false⟩, ⟨toolModule "App", true⟩, ⟨toolModule "Ext", false⟩]

/-- The same modules, the primary first. -/
def primaryFirst : List Input :=
  [⟨toolModule "App", true⟩, ⟨toolModule "Lib", false⟩, ⟨toolModule "Ext", false⟩]

/-- The link of the modules in the first order. -/
def betweenLink : Context where
  registry := ⟨primaryBetween⟩
  policy := ⟨false, [], [], [], false⟩
  targetName := "App"

/-- What all steps before the output is finished leave. -/
def betweenImported : ImportState :=
  Import.finalState (Import.all betweenLink) betweenLink.startImport

/-- In both orders the primary's type comes first, and the others are merged into it. -/
theorem link_eq_ok_iff_primaryBetween : PrimaryMoved primaryBetween primaryFirst
    ∧ ∃ r, link {} primaryBetween = .ok r ∧ link {} primaryFirst = .ok r
      ∧ r.report.conflicts = [⟨"Kit.Tool", "App", "Lib"⟩, ⟨"Kit.Tool", "App", "Ext"⟩] := by
  have hmoved : PrimaryMoved primaryBetween primaryFirst := ⟨rfl, rfl⟩
  have hall : Import.all betweenLink betweenLink.startImport = .ok () betweenImported :=
    Import.eq_ok_of_succeeds (by decide +kernel)
  have hthrough : LinkedThrough {} primaryBetween betweenLink betweenImported ⟨_, _⟩ :=
    ⟨rfl, rfl, rfl, hall, rfl, rfl⟩
  have hlink := link_eq_ok_iff.mpr ⟨_, _, hthrough⟩
  refine ⟨hmoved, _, hlink, (link_eq_ok_iff_of_primaryMoved hmoved _).mp hlink, ?_⟩
  rw [hthrough.report]
  change betweenImported.conflicts = _
  decide +kernel

end ModuleLinker
