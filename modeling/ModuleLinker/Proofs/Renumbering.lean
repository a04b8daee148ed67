import ModuleLinker.Link
import ModuleLinker.Proofs.Registry

/-!
# The same inputs under other numbers

A module is known by its position among the inputs. Where the same modules stand in another order,
each has another number; if the order in which they are imported is the same, nothing that is read
off the inputs depends on the numbers. What names a module by its number names it by the new number,
and everything else stays what it was.
-/

namespace ModuleLinker

variable {ρ : ModuleId → ModuleId}

theorem findSome?_map_of {α β γ δ : Type} {r : α → β} {f : α → Option γ} {g : β → Option δ}
    {k : γ → δ} (h : ∀ a, g (r a) = (f a).map k) (l : List α) :
    (l.map r).findSome? g = (l.findSome? f).map k := by
  induction l with
  | nil => rfl
  | cons a rest ih =>
    rw [List.map_cons, List.findSome?_cons, List.findSome?_cons, h]
    cases f a with
    | none => exact ih
    | some found => rfl

/-! ## The registry

Everything that a registry is asked for is said in terms of the import order, or of a single
module. So it is the same, or the same under other numbers. -/

namespace Registry

/-- Two registries have the same modules, which have other numbers and the same import order. -/
structure Renumbers (ρ : ModuleId → ModuleId) (r r' : Registry) : Prop where
  injective : Function.Injective ρ
  module_eq : ∀ m, r'.module (ρ m) = r.module m
  importOrder_eq : r'.importOrder = r.importOrder.map ρ
  primary?_eq : r'.primary? = r.primary?.map ρ
  find?_eq : ∀ name, r'.find? name = (r.find? name).map ρ
  size_eq : r'.size = r.size

namespace Renumbers

variable {r r' : Registry} (h : r.Renumbers ρ r')
include h

theorem isPrimary_eq (m : ModuleId) : r'.isPrimary (ρ m) = r.isPrimary m := by
  rw [isPrimary, isPrimary, h.primary?_eq]
  cases r.primary? with
  | none => rfl
  | some p => simp [h.injective.eq_iff]

theorem secondaries_eq : r'.secondaries = r.secondaries.map ρ := by
  have horder := h.importOrder_eq
  rw [importOrder, importOrder, List.map_append, h.primary?_eq] at horder
  cases hp : r.primary? with
  | none => simpa [hp] using horder
  | some p => simpa [hp] using horder

theorem combinedHash_eq : r'.combinedHash = r.combinedHash := by
  simp only [combinedHash, h.importOrder_eq, List.map_map, Function.comp_def, h.module_eq]

theorem primaryModule_eq : r'.primaryModule = r.primaryModule := by
  rw [primaryModule, primaryModule, h.primary?_eq]
  cases r.primary? with
  | none => rfl
  | some p => exact h.module_eq p

theorem expectedRuntime_eq : r'.expectedRuntime = r.expectedRuntime := by
  rw [expectedRuntime, expectedRuntime, h.primary?_eq]
  cases r.primary? with
  | none => rfl
  | some p => exact congrArg Module.runtime (h.module_eq p)

theorem checkRuntimes_eq : r'.checkRuntimes = r.checkRuntimes := by
  have hruns : (fun m ↦ !r'.runsWithPrimary m) ∘ ρ = fun m ↦ !r.runsWithPrimary m := by
    funext m
    simp only [Function.comp_apply, runsWithPrimary, h.expectedRuntime_eq, h.module_eq]
  rw [checkRuntimes, checkRuntimes, h.secondaries_eq, List.find?_map, hruns]
  cases r.secondaries.find? fun m ↦ !r.runsWithPrimary m with
  | none => rfl
  | some m => simp only [Option.map_some, h.module_eq, h.expectedRuntime_eq]

end Renumbers

/-! ## From one numbering to the other

The number of a module in the other registry is found by its place in the import order. The orders
have no repetitions, so that is a bijection between the ids. -/

/-- The number that a module has in another registry, if both have the same import order; a number
that no module has stays. -/
def renumbering (r r' : Registry) (m : ModuleId) : ModuleId :=
  r'.importOrder.getD (r.importOrder.idxOf m) m

variable {r r' : Registry}

theorem renumbering_of_not_lt {m : ModuleId} (hm : ¬m.index < r.size)
    (hlength : r'.importOrder.length = r.importOrder.length) : r.renumbering r' m = m := by
  have hidx := List.idxOf_eq_length fun hmem ↦ hm (mem_importOrder.mp hmem)
  rw [renumbering, hidx, List.getD_eq_default _ _ (Nat.le_of_eq hlength)]

theorem map_renumbering (hlength : r'.importOrder.length = r.importOrder.length) :
    r.importOrder.map (r.renumbering r') = r'.importOrder := by
  refine List.ext_getElem (by simp [hlength]) fun k hk hk' ↦ ?_
  rw [List.getElem_map, renumbering, r.nodup_importOrder.idxOf_getElem, List.getD_eq_getElem]

theorem renumbering_mem (hlength : r'.importOrder.length = r.importOrder.length) {m : ModuleId}
    (hm : m.index < r.size) : r.renumbering r' m ∈ r'.importOrder := by
  rw [← map_renumbering hlength]
  exact List.mem_map_of_mem (mem_importOrder.mpr hm)

theorem length_importOrder (r : Registry) : r.importOrder.length = r.size := by
  rw [r.perm_importOrder.length_eq]
  simp [ids, size]

theorem injective_renumbering (hsize : r'.size = r.size) :
    Function.Injective (r.renumbering r') := by
  have hlength : r'.importOrder.length = r.importOrder.length := by
    rw [length_importOrder, length_importOrder, hsize]
  have hnodup : (r.importOrder.map (r.renumbering r')).Nodup := by
    rw [map_renumbering hlength]
    exact r'.nodup_importOrder
  have hlt : ∀ {m : ModuleId}, m.index < r.size → (r.renumbering r' m).index < r.size :=
    fun hm ↦ hsize ▸ mem_importOrder.mp (renumbering_mem hlength hm)
  intro m n hmn
  by_cases hm : m.index < r.size
  · by_cases hn : n.index < r.size
    · exact List.inj_on_of_nodup_map hnodup (mem_importOrder.mpr hm) (mem_importOrder.mpr hn) hmn
    · rw [renumbering_of_not_lt hn hlength] at hmn
      exact absurd (hmn ▸ hlt hm) hn
  · by_cases hn : n.index < r.size
    · rw [renumbering_of_not_lt hm hlength] at hmn
      exact absurd (hmn ▸ hlt hn) hm
    · rwa [renumbering_of_not_lt hm hlength, renumbering_of_not_lt hn hlength] at hmn

/-- Two accepted registries with the same inputs in the same import order differ in the numbers
only. -/
theorem renumbers_of_importOrder (hr : r.Accepted) (hr' : r'.Accepted) (hp : r.primary?.isSome)
    (hp' : r'.primary?.isSome)
    (horder : r'.importOrder.map r'.input = r.importOrder.map r.input) :
    r.Renumbers (r.renumbering r') r' := by
  have hlength : r'.importOrder.length = r.importOrder.length := by
    simpa using congrArg List.length horder
  have hsize : r'.size = r.size := by
    rw [← length_importOrder, ← length_importOrder, hlength]
  have hmap := map_renumbering hlength
  have hmodule : ∀ m, r'.module (r.renumbering r' m) = r.module m := fun m ↦ by
    by_cases hm : m.index < r.size
    · rw [← hmap, List.map_map] at horder
      exact congrArg Input.module (List.map_inj_left.mp horder m (mem_importOrder.mpr hm))
    · rw [renumbering_of_not_lt hm hlength, module_of_not_lt hm, module_of_not_lt (hsize ▸ hm)]
  refine ⟨injective_renumbering hsize, hmodule, hmap.symm, ?_, fun name ↦ ?_, hsize⟩
  · obtain ⟨p, hp⟩ := Option.isSome_iff_exists.mp hp
    obtain ⟨p', hp'⟩ := Option.isSome_iff_exists.mp hp'
    rw [importOrder, importOrder, hp, hp'] at hmap
    rw [hp, hp', Option.map_some, (List.cons.inj hmap).1]
  · cases hfind : r.find? name with
    | some l =>
      obtain ⟨hl, hname⟩ := hr.find?_eq_some_iff.mp hfind
      refine hr'.find?_eq_some_iff.mpr ⟨?_, by rw [hmodule, hname]⟩
      exact mem_ids.mpr (mem_importOrder.mp (renumbering_mem hlength (mem_ids.mp hl)))
    | none =>
      refine find?_eq_none_iff.mpr fun l' hl' ↦ ?_
      have hmem := mem_importOrder.mpr (mem_ids.mp hl')
      rw [← hmap] at hmem
      obtain ⟨l, hl, rfl⟩ := List.mem_map.mp hmem
      rw [hmodule]
      exact find?_eq_none_iff.mp hfind l (mem_ids.mpr (mem_importOrder.mp hl))

end Registry

/-! ## Looking names up

Walks compare the modules that they come through, so an injective change of numbers leaves them as
they are. -/

/-- The end of a walk under other numbers. -/
def ForwardEnd.renumber (ρ : ModuleId → ModuleId) : ForwardEnd → ForwardEnd
  | .defined m type => .defined (ρ m) type
  | .external m assembly => .external (ρ m) assembly
  | .unresolved => .unresolved

/-- A hop under other numbers. -/
def Hop.renumber (ρ : ModuleId → ModuleId) : Hop → Hop
  | .merged next => .merged (ρ next)
  | .external assembly => .external assembly
  | .none => .none

namespace Context

/-- Two links with the same modules under other numbers, of which the same is asked. -/
structure Renumbers (ρ : ModuleId → ModuleId) (ctx ctx' : Context) : Prop where
  registry : ctx.registry.Renumbers ρ ctx'.registry
  policy_eq : ctx'.policy = ctx.policy
  targetName_eq : ctx'.targetName = ctx.targetName

namespace Renumbers

variable {ctx ctx' : Context} (h : ctx.Renumbers ρ ctx')
include h

theorem module_eq (m : ModuleId) : ctx'.module (ρ m) = ctx.module m := h.registry.module_eq m

theorem merged?_eq (name : String) : ctx'.merged? name = (ctx.merged? name).map ρ :=
  h.registry.find?_eq name

theorem findType?_eq (m : ModuleId) (qualified : String) :
    ctx'.findType? (ρ m) qualified = ctx.findType? m qualified := by
  rw [findType?, findType?, h.module_eq]

theorem findAnywhere?_eq (qualified : String) :
    ctx'.findAnywhere? qualified = (ctx.findAnywhere? qualified).map (Prod.map ρ id) := by
  rw [findAnywhere?, findAnywhere?, h.registry.importOrder_eq]
  refine findSome?_map_of (fun m ↦ ?_) _
  rw [h.findType?_eq, Option.map_map]
  rfl

theorem internalizes_eq (m : ModuleId) : ctx'.internalizes (ρ m) = ctx.internalizes m := by
  rw [internalizes, internalizes, h.registry.isPrimary_eq, h.policy_eq, h.module_eq]

theorem internalizesType_eq (m : ModuleId) (id : TypeId) :
    ctx'.internalizesType (ρ m) id = ctx.internalizesType m id := by
  rw [internalizesType, internalizesType, h.internalizes_eq, h.policy_eq, h.module_eq]

theorem decides_eq (m : ModuleId) : ctx'.decides (ρ m) = ctx.decides m := by
  funext id
  rw [decides, decides, h.internalizes_eq, h.policy_eq, h.module_eq]

theorem hop_eq (m : ModuleId) (qualified : String) :
    ctx'.hop (ρ m) qualified = (ctx.hop m qualified).renumber ρ := by
  unfold hop
  rw [h.module_eq]
  dsimp only
  cases (ctx.module m).findExport? qualified with
  | none => rfl
  | some e =>
    by_cases hforwards : (ctx.module m).exportForwards e = true
    · simp only [if_pos hforwards]
      cases (ctx.module m).exportAssembly? e with
      | none => rfl
      | some a =>
        simp only [h.merged?_eq]
        cases ctx.merged? ((ctx.module m).assemblyRef a).name <;> rfl
    · simp only [if_neg hforwards]
      rfl

theorem circle_eq (qualified : String) (visited : List ModuleId) (next : ModuleId) :
    ctx'.circle qualified (visited.map ρ) (ρ next) = ctx.circle qualified visited next := by
  rw [circle, circle, ← List.map_singleton, ← List.map_append, List.map_map]
  refine List.map_congr_left fun m _ ↦ ?_
  rw [Function.comp_apply, h.module_eq]

theorem followWithin_eq (qualified : String) (bound : Nat) (visited : List ModuleId)
    (current : ModuleId) : ctx'.followWithin qualified bound (visited.map ρ) (ρ current)
      = (ctx.followWithin qualified bound visited current).map (ForwardEnd.renumber ρ) := by
  induction bound generalizing visited current with
  | zero => rfl
  | succ bound ih =>
    unfold followWithin
    rw [h.hop_eq, h.findAnywhere?_eq]
    cases ctx.hop current qualified with
    | external a => cases ctx.findAnywhere? qualified <;> rfl
    | none => cases ctx.findAnywhere? qualified <;> rfl
    | merged next =>
      simp only [Hop.renumber, List.mem_map_of_injective h.registry.injective, h.findType?_eq]
      by_cases hvisited : next ∈ visited
      · simp only [if_pos hvisited, h.circle_eq]
        rfl
      · simp only [if_neg hvisited]
        cases ctx.findType? next qualified with
        | some type => rfl
        | none =>
          have hnext := ih (visited ++ [next]) next
          rwa [List.map_append] at hnext

theorem followForwarders_eq (m : ModuleId) (qualified : String) :
    ctx'.followForwarders (ρ m) qualified
      = (ctx.followForwarders m qualified).map (ForwardEnd.renumber ρ) := by
  rw [followForwarders, followForwarders, h.registry.size_eq]
  exact h.followWithin_eq qualified ctx.registry.size [m] m

end Renumbers

end Context

end ModuleLinker
