import ModuleLinker.Proofs.Import.Accounting
import ModuleLinker.Proofs.Visibility

/-!
# Collisions and the report

The report accounts for every collision between types. Whoever comes second to a place is in the
list of conflicts, whoever had to give up its name is in the list of renamings, and everything else
stands under its own name in the image of the type around it.
-/

namespace ModuleLinker

namespace ImportState

/-- The report accounts for every input type. -/
structure AccountsForTypes (s : ImportState) (ctx : Context) : Prop where
  /-- Every type has a place. -/
  placed : ∀ x ∈ ctx.allTypes, ∃ t, s.map.typeOf? x.1 x.2 = some t
  /-- One conflict for each type that is not the first source of its place, and no others. -/
  conflicts : s.conflicts.Perm (ctx.allTypes.filterMap (s.conflict? ctx))
  /-- No two types share a place without a conflict for one of them. -/
  shared : ∀ {x y : ModuleId × TypeId} {t}, x ≠ y →
    s.map.typeOf? x.1 x.2 = some t → s.map.typeOf? y.1 y.2 = some t →
    ((ctx.module x.1).typeDef x.2).isModuleType = false →
    ((ctx.module y.1).typeDef y.2).isModuleType = false →
    ∃ c ∈ s.conflicts, s.conflict? ctx x = some c ∨ s.conflict? ctx y = some c
  /-- One renaming for each hidden type whose own name had been declared in the container of its
  place before it was, and no others. -/
  renamed : s.renamed.Perm (ctx.allTypes.filterMap (s.renaming? ctx))
  /-- Any other type is known by its own name. -/
  own : ∀ {x : ModuleId × TypeId} {t}, s.map.typeOf? x.1 x.2 = some t → s.renaming? ctx x = none →
    Module.qualifiedName s.target t = s.target.nameIn (Module.typeDef s.target t).declaring
      ((ctx.module x.1).typeDef x.2).nspace ((ctx.module x.1).typeDef x.2).name
  /-- A type that was renamed has one of the names that are tried for it. -/
  candidate : ∀ {x : ModuleId × TypeId} {t r},
    s.map.typeOf? x.1 x.2 = some t → s.renaming? ctx x = some r →
    ∃ k, (Module.typeDef s.target t).name
      = Target.candidate (ctx.module x.1).name ((ctx.module x.1).typeDef x.2).name k
  /-- Where the links of a module agree, a nested type stands in the image of the type around it. -/
  nested : ∀ {x : ModuleId × TypeId} {o t}, (ctx.module x.1).NestingAgrees →
    ((ctx.module x.1).typeDef x.2).declaring = some o → s.map.typeOf? x.1 x.2 = some t →
    ∃ u, s.map.typeOf? x.1 o = some u ∧ (Module.typeDef s.target t).declaring = some u
      ∧ t ∈ (Module.typeDef s.target u).nested

variable {s : ImportState} {ctx : Context}

/-- Of two types that share a place, one at least is not first. -/
theorem exists_conflict_of_shared (hs : s.Sound ctx) (ht : s.TellsConflicts ctx)
    {x y : ModuleId × TypeId} {t : TypeId} (hne : x ≠ y) (hx : s.map.typeOf? x.1 x.2 = some t)
    (hy : s.map.typeOf? y.1 y.2 = some t)
    (hmodx : ((ctx.module x.1).typeDef x.2).isModuleType = false)
    (hmody : ((ctx.module y.1).typeDef y.2).isModuleType = false) :
    ∃ c ∈ s.conflicts, s.conflict? ctx x = some c ∨ s.conflict? ctx y = some c := by
  obtain ⟨first, hfirst⟩ := Option.ne_none_iff_exists'.mp
    (mt List.head?_eq_none_iff.mp (hs.sourcesOf_ne_nil hx))
  have hmem : ∀ {z c}, s.map.typeOf? z.1 z.2 = some t → s.conflict? ctx z = some c →
      c ∈ s.conflicts := fun hz hc ↦
    ht.symm.subset (List.mem_filterMap.mpr ⟨_, Context.mem_allTypes_of_lt (hs.inputs hz), hc⟩)
  by_cases heq : first = x
  · have hc := conflict?_eq_some_iff.mpr ⟨hmody, t, first, hy, hfirst, heq ▸ hne, rfl⟩
    exact ⟨_, hmem hy hc, .inr hc⟩
  · have hc := conflict?_eq_some_iff.mpr ⟨hmodx, t, first, hx, hfirst, heq, rfl⟩
    exact ⟨_, hmem hx hc, .inl hc⟩

/-- Where the links of a module agree, the container of a place is the image of the declaring
type. -/
theorem Settled.nested {m : ModuleId} {id o t : TypeId} (h : s.Settled ctx m id t)
    (hs : s.Sound ctx) (hctx : ctx.registry.Accepted) (hlinks : (ctx.module m).NestingAgrees)
    (hdeclaring : ((ctx.module m).typeDef id).declaring = some o)
    (ht : s.map.typeOf? m id = some t) :
    ∃ u, s.map.typeOf? m o = some u ∧ (Module.typeDef s.target t).declaring = some u
      ∧ t ∈ (Module.typeDef s.target u).nested := by
  cases hcontainer : (Module.typeDef s.target t).declaring with
  | none =>
    rw [h.top hcontainer] at hdeclaring
    cases hdeclaring
  | some u =>
    obtain ⟨o', ho', hlink⟩ := h.inside hcontainer
    have hsame : ((ctx.module m).typeDef id).declaring = some o' := by
      refine hlink.elim (fun hlisted ↦ ?_) fun hd ↦ hd
      exact (hlinks o' (Module.mem_typeIds.mpr (hs.inputs ho')) id
        (Module.mem_typeIds.mpr (nested_lt hctx hlisted))).mp hlisted
    obtain rfl : o' = o := Option.some.inj (hsame.symm.trans hdeclaring)
    exact ⟨u, ho', rfl, hs.linked.mem_nested.mpr ⟨hs.typeOf?_lt ht, hcontainer⟩⟩

end ImportState

/-- Where no name holds the separator, the report of an import accounts for every type. -/
theorem accountsForTypes_of_run {inputs : List Input} {ctx : Context} {s : ImportState}
    (hinputs : Registry.ofInputs inputs = .ok ctx.registry)
    (hplain : ∀ i ∈ inputs, i.module.PlainNames)
    (hrun : Import.run ctx ctx.startImport = .ok () s) : s.AccountsForTypes ctx := by
  obtain ⟨hctx, -, heq⟩ := Registry.accepted_of_ofInputs hinputs
  have hplain' : ∀ m, (ctx.module m).PlainNames :=
    Registry.forall_module (heq ▸ hplain) (by decide)
  have himported := Import.imported_of_run hctx hrun
  have hs := himported.sound
  have hconflicts := Import.tellsConflicts_of_run hctx hrun
  have hnames := Import.tellsNames_of_run hctx hplain' hrun
  constructor
  case placed =>
    intro x hx
    obtain ⟨hm, hid⟩ := Context.mem_allTypes.mp hx
    obtain ⟨t, hfilled⟩ := himported.filled hm hid
    exact ⟨t, hfilled.place⟩
  case conflicts => exact hconflicts
  case shared => exact ImportState.exists_conflict_of_shared hs hconflicts
  case renamed => exact hnames.renamed
  case own => exact fun ht hnone ↦ (hnames.contained.settled ht).own hnone
  case candidate => exact fun ht hr ↦ (hnames.contained.settled ht).candidate hr
  case nested =>
    exact fun hlinks hdeclaring ht ↦
      (hnames.contained.settled ht).nested hs hctx hlinks hdeclaring ht

/-- The type of the open library is merged into the program's, and the hidden one gets a new name.
Its nested types keep theirs, which are free inside it. -/
theorem accountsForTypes_rivalTypes : Registry.ofInputs rivalTypes = .ok rivalTypesLink.registry
    ∧ (∀ i ∈ rivalTypes, i.module.PlainNames)
    ∧ Import.run rivalTypesLink rivalTypesLink.startImport = .ok () rivalTypesImported
    ∧ rivalTypesImported.AccountsForTypes rivalTypesLink
    ∧ rivalTypesImported.conflicts = [⟨"Kit.Tool", "App", "Open"⟩]
    ∧ rivalTypesImported.renamed = [⟨"Lib", "Kit.Tool", "<Lib>Tool"⟩] := by
  have hinputs : Registry.ofInputs rivalTypes = .ok rivalTypesLink.registry := rfl
  have hplain : ∀ i ∈ rivalTypes, i.module.PlainNames := by decide
  have hrun : Import.run rivalTypesLink rivalTypesLink.startImport = .ok () rivalTypesImported :=
    Import.eq_ok_of_succeeds (by decide +kernel)
  refine ⟨hinputs, hplain, hrun, accountsForTypes_of_run hinputs hplain hrun, ?_, ?_⟩
  all_goals decide +kernel

end ModuleLinker
