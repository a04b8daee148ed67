import Mathlib.Data.List.Basic
import Mathlib.Data.Prod.Basic
import ModuleLinker.Import.Declare
import ModuleLinker.Proofs.Renumbering
import ModuleLinker.Proofs.Table

/-!
# The state of an import under other numbers

The symbol map and the rest of an import's state name modules by their numbers. Writing an entry and
renumbering give the same state in either order, and so do all changes that an import makes to its
state at once: declaring types is what they come down to.
-/

namespace ModuleLinker

variable {ρ : ModuleId → ModuleId}

private theorem insert_map {α β : Type} [BEq α] [LawfulBEq α] [BEq β] [LawfulBEq β] {f : α → β}
    (hf : Function.Injective f) (l : List α) (a : α) :
    (l.map f).insert (f a) = (l.insert a).map f := by
  by_cases ha : a ∈ l
  · rw [List.insert_of_mem ha, List.insert_of_mem (List.mem_map_of_mem ha)]
  · rw [List.insert_of_not_mem ha,
      List.insert_of_not_mem (mt (List.mem_map_of_injective hf).mp ha), List.map_cons]

private theorem contains_map {α β : Type} [BEq α] [LawfulBEq α] [BEq β] [LawfulBEq β] {f : α → β}
    (hf : Function.Injective f) (l : List α) (a : α) : (l.map f).contains (f a) = l.contains a := by
  rw [Bool.eq_iff_iff, List.contains_iff_mem, List.contains_iff_mem, List.mem_map_of_injective hf]

/-- A block under other numbers. -/
def Block.renumber (ρ : ModuleId → ModuleId) (b : Block) : Block := { b with origin := ρ b.origin }

/-! ## The symbol map

Numbers of modules are in the keys of entries and in what is stored for sources and makers. The
change of numbers is injective, so an entry is found under the new key exactly if it was under the
old one. -/

namespace SymbolMap

/-- The map of the same link under other numbers. -/
def renumber (ρ : ModuleId → ModuleId) (s : SymbolMap) : SymbolMap where
  entries := s.entries.map (Prod.map ρ id) id
  sources := s.sources.map id (List.map (Prod.map ρ id))
  methodOrigins := s.methodOrigins.map id ρ
  blocks := s.blocks.map id (List.map (Block.renumber ρ))
  resolved := s.resolved.map (Prod.map ρ id)
  folded := s.folded.map (Prod.map ρ id)

variable (s : SymbolMap) (m : ModuleId)

/-! What is stored for ids of the output -/

theorem sourcesOf_renumber (target : TypeId) :
    (s.renumber ρ).sourcesOf target = (s.sourcesOf target).map (Prod.map ρ id) := by
  have hfind := Table.find?_map (g := List.map (Prod.map ρ (id : TypeId → TypeId)))
    Function.injective_id s.sources target
  change ((s.sources.map id _).find? (id target)).getD [] = _
  rw [hfind, sourcesOf]
  cases s.sources.find? target <;> rfl

theorem typeOrigin?_renumber (target : TypeId) :
    (s.renumber ρ).typeOrigin? target = (s.typeOrigin? target).map ρ := by
  rw [typeOrigin?, typeOrigin?, sourcesOf_renumber, List.head?_map, Option.map_map, Option.map_map]
  rfl

theorem methodOrigin?_renumber (target : MethodId) :
    (s.renumber ρ).methodOrigin? target = (s.methodOrigin? target).map ρ :=
  Table.find?_map Function.injective_id s.methodOrigins target

theorem recordMethodOrigin_renumber (target : MethodId) :
    (s.renumber ρ).recordMethodOrigin target (ρ m) = (s.recordMethodOrigin target m).renumber ρ :=
  congrArg (fun methodOrigins ↦ { s.renumber ρ with methodOrigins })
    (Table.insertNew_map Function.injective_id s.methodOrigins target m)

theorem blocksOf_renumber (target : MethodId) :
    (s.renumber ρ).blocksOf target = (s.blocksOf target).map (Block.renumber ρ) := by
  have hfind := Table.find?_map (g := List.map (Block.renumber ρ)) Function.injective_id s.blocks
    target
  change ((s.blocks.map id _).find? (id target)).getD [] = _
  rw [hfind, blocksOf]
  cases s.blocks.find? target <;> rfl

theorem blockOrigin?_renumber (target : MethodId) (position : Nat) :
    (s.renumber ρ).blockOrigin? target position = (s.blockOrigin? target position).map ρ := by
  rw [blockOrigin?, blockOrigin?, blocksOf_renumber, List.find?_map, Option.map_map, Option.map_map]
  rfl

theorem recordBlock_renumber (target : MethodId) (b : Block) :
    (s.renumber ρ).recordBlock target (b.renumber ρ) = (s.recordBlock target b).renumber ρ := by
  have hinsert := Table.insert_map (g := List.map (Block.renumber ρ)) Function.injective_id s.blocks
    target (s.blocksOf target ++ [b])
  rw [List.map_append, ← blocksOf_renumber] at hinsert
  exact congrArg (fun blocks ↦ { s.renumber ρ with blocks }) hinsert

theorem recordBlocks_renumber (target : MethodId) (blocks : List Block) :
    (blocks.map (Block.renumber ρ)).foldl (fun s b ↦ s.recordBlock target b) (s.renumber ρ)
      = (blocks.foldl (fun s b ↦ s.recordBlock target b) s).renumber ρ := by
  induction blocks generalizing s with
  | nil => rfl
  | cons b rest ih => rw [List.map_cons, List.foldl_cons, recordBlock_renumber, ih, List.foldl_cons]

theorem counts_renumber : (s.renumber ρ).counts = s.counts := by
  have hkeys : (s.renumber ρ).entries.keys = s.entries.keys.map (Prod.map ρ id) := by
    simp [Table.keys, renumber, Table.map]
  have hlength : (s.renumber ρ).resolved.length = s.resolved.length := List.length_map _
  simp only [counts, hkeys, hlength, List.countP_map, Function.comp_def, Prod.map_snd, id]

/-! What is stored for symbols -/

section Symbols

variable (hρ : Function.Injective ρ)
include hρ

theorem find?_renumber (symbol : Symbol) : (s.renumber ρ).find? (ρ m) symbol = s.find? m symbol :=
  (Table.find?_map (hρ.prodMap Function.injective_id) s.entries (m, symbol)).trans
    (congrFun Option.map_id _)

theorem contains_renumber (symbol : Symbol) :
    (s.renumber ρ).contains (ρ m) symbol = s.contains m symbol :=
  Table.contains_map (hρ.prodMap Function.injective_id) s.entries (m, symbol)

theorem record_renumber (symbol : Symbol) (c : Counterpart) :
    (s.renumber ρ).record (ρ m) symbol c = (s.record m symbol c).renumber ρ :=
  congrArg (fun entries ↦ { s.renumber ρ with entries })
    (Table.insertNew_map (hρ.prodMap Function.injective_id) s.entries (m, symbol) c)

theorem typeOf?_renumber (id : TypeId) : (s.renumber ρ).typeOf? (ρ m) id = s.typeOf? m id := by
  rw [typeOf?, typeOf?, s.find?_renumber m hρ]

theorem typeRefOf?_renumber (id : TypeRefId) :
    (s.renumber ρ).typeRefOf? (ρ m) id = s.typeRefOf? m id := by
  rw [typeRefOf?, typeRefOf?, s.find?_renumber m hρ]

theorem methodOf?_renumber (id : MethodId) :
    (s.renumber ρ).methodOf? (ρ m) id = s.methodOf? m id := by
  rw [methodOf?, methodOf?, s.find?_renumber m hρ]

theorem fieldOf?_renumber (id : FieldId) :
    (s.renumber ρ).fieldOf? (ρ m) id = s.fieldOf? m id := by
  rw [fieldOf?, fieldOf?, s.find?_renumber m hρ]

theorem memberRefOf?_renumber (id : MemberRefId) :
    (s.renumber ρ).memberRefOf? (ρ m) id = s.memberRefOf? m id :=
  s.find?_renumber m hρ (.memberRef id)

theorem recordSource_renumber (target type : TypeId) :
    (s.renumber ρ).recordSource target (ρ m) type = (s.recordSource target m type).renumber ρ := by
  have hmem : (ρ m, type) ∈ (s.sourcesOf target).map (Prod.map ρ id)
      ↔ (m, type) ∈ s.sourcesOf target :=
    List.mem_map_of_injective (a := (m, type)) (hρ.prodMap Function.injective_id)
  have hinsert := Table.insert_map (g := List.map (Prod.map ρ (id : TypeId → TypeId)))
    Function.injective_id s.sources target (if (m, type) ∈ s.sourcesOf target
      then s.sourcesOf target else s.sourcesOf target ++ [(m, type)])
  unfold recordSource
  simp only [sourcesOf_renumber, hmem]
  refine congrArg (fun sources ↦ { s.renumber ρ with sources }) (Eq.trans ?_ hinsert)
  split <;> simp [renumber]

theorem markResolved_renumber (qualified : String) :
    (s.renumber ρ).markResolved (ρ m) qualified = (s.markResolved m qualified).renumber ρ :=
  congrArg (fun resolved ↦ { s.renumber ρ with resolved })
    (insert_map (hρ.prodMap Function.injective_id) s.resolved (m, qualified))

theorem markFolded_renumber (id : MethodId) :
    (s.renumber ρ).markFolded (ρ m) id = (s.markFolded m id).renumber ρ :=
  congrArg (fun folded ↦ { s.renumber ρ with folded })
    (insert_map (hρ.prodMap Function.injective_id) s.folded (m, id))

end Symbols

end SymbolMap

/-! ## Declaring types

Work lists hold types of one module, so they are the same under either number. -/

namespace ImportState

/-- The state of the same import under other numbers. -/
def renumber (ρ : ModuleId → ModuleId) (s : ImportState) : ImportState :=
  { s with
    map := s.map.renumber ρ
    populated := s.populated.map (Prod.map ρ id)
    copied := s.copied.map (Prod.map ρ id) }

@[simp] theorem target_renumber (s : ImportState) : (s.renumber ρ).target = s.target := rfl

@[simp] theorem map_renumber (s : ImportState) : (s.renumber ρ).map = s.map.renumber ρ := rfl

theorem contains_populated_renumber (hρ : Function.Injective ρ) (s : ImportState) (m : ModuleId)
    (type : TypeId) : (s.renumber ρ).populated.contains (ρ m, type)
      = s.populated.contains (m, type) :=
  contains_map (hρ.prodMap Function.injective_id) s.populated (m, type)

theorem contains_copied_renumber (hρ : Function.Injective ρ) (s : ImportState) (m : ModuleId)
    (method : MethodId) : (s.renumber ρ).copied.contains (ρ m, method)
      = s.copied.contains (m, method) :=
  contains_map (hρ.prodMap Function.injective_id) s.copied (m, method)

variable {ctx ctx' : Context} (h : ctx.Renumbers ρ ctx') (m : ModuleId)
include h

theorem place_renumber (s : ImportState) (p : Pending) :
    (s.renumber ρ).place ctx' (ρ m) p = (s.place ctx m p).map id (renumber ρ) := by
  unfold place
  simp only [h.module_eq, target_renumber, map_renumber, SymbolMap.typeOrigin?_renumber]
  by_cases hmod : ((ctx.module m).typeDef p.type).isModuleType = true
  · rw [if_pos hmod, if_pos hmod]
    rfl
  · rw [if_neg hmod, if_neg hmod]
    cases s.target.lookup? (s.target.nameIn p.container ((ctx.module m).typeDef p.type).nspace
        ((ctx.module m).typeDef p.type).name) with
    | none => rfl
    | some existing =>
      by_cases hhide : p.hide = true
      · simp only [if_pos hhide]
        rfl
      · simp only [if_neg hhide]
        cases s.map.typeOrigin? existing with
        | none => rfl
        | some origin =>
          simp only [Option.map_some, h.module_eq]
          rfl

theorem declareOne_renumber (s : ImportState) (p : Pending) :
    (s.renumber ρ).declareOne ctx' (ρ m) p = (s.declareOne ctx m p).map id (renumber ρ) := by
  unfold declareOne
  rw [place_renumber h]
  have hρ := h.registry.injective
  simp only [Prod.map_fst, Prod.map_snd, renumber, SymbolMap.record_renumber _ m hρ,
    SymbolMap.recordSource_renumber _ m hρ, id, Prod.map_apply]

theorem nestedPending_renumber (type target : TypeId) :
    nestedPending ctx' (ρ m) type target = nestedPending ctx m type target := by
  simp only [nestedPending, h.module_eq, h.internalizesType_eq]

theorem declareAll_renumber (s : ImportState) (work : List Pending) :
    declareAll ctx' (ρ m) (s.renumber ρ) work = (declareAll ctx m s work).renumber ρ := by
  have hknown : ∀ (s : ImportState) (p : Pending),
      (s.renumber ρ).map.contains (ρ m) (.type p.type) = s.map.contains m (.type p.type) :=
    fun s p ↦ s.map.contains_renumber m h.registry.injective _
  induction s, work using declareAll.induct ctx m with
  | case1 s => rw [declareAll, declareAll]
  | case2 s p rest hmapped ih =>
    rw [declareAll, declareAll, hknown, if_pos hmapped, if_pos hmapped, ih]
  | case3 s p rest hmapped placed ih =>
    rw [declareAll, declareAll, hknown, if_neg hmapped, if_neg hmapped]
    simp only [declareOne_renumber h, Prod.map_fst, Prod.map_snd, nestedPending_renumber h]
    exact ih

theorem declare_renumber (s : ImportState) (p : Pending) :
    (s.renumber ρ).declare ctx' (ρ m) p = (s.declare ctx m p).map id (renumber ρ) := by
  simp only [declare, declareAll_renumber h]
  exact congrArg (fun place ↦ (Option.getD place default, _))
    (SymbolMap.typeOf?_renumber _ m h.registry.injective p.type)

theorem ensureIn_renumber (s : ImportState) (type : TypeId) (container : Option TypeId) :
    (s.renumber ρ).ensureIn ctx' (ρ m) type container
      = (s.ensureIn ctx m type container).map id (renumber ρ) := by
  unfold ensureIn
  rw [map_renumber, SymbolMap.typeOf?_renumber _ m h.registry.injective]
  cases s.map.typeOf? m type with
  | some target => rfl
  | none => simp only [h.internalizesType_eq, declare_renumber h]

theorem ensureChain_renumber (chain : List TypeId) (s : ImportState) :
    ensureChain ctx' (ρ m) chain (s.renumber ρ)
      = (ensureChain ctx m chain s).map id (renumber ρ) := by
  induction chain with
  | nil => rfl
  | cons type outer ih =>
    cases outer with
    | nil => exact ensureIn_renumber h m s type none
    | cons o rest =>
      unfold ensureChain
      rw [map_renumber, SymbolMap.typeOf?_renumber _ m h.registry.injective]
      cases s.map.typeOf? m type with
      | some target => rfl
      | none => simp only [ih, Prod.map_fst, Prod.map_snd, id, ensureIn_renumber h]

theorem enteredSince_renumber (s s' : ImportState) :
    (s.renumber ρ).enteredSince (s'.renumber ρ) ctx' (ρ m) = s.enteredSince s' ctx m := by
  have hρ := h.registry.injective
  simp only [enteredSince, h.module_eq, map_renumber, SymbolMap.contains_renumber _ m hρ]

theorem listedSince_renumber (s s' : ImportState) :
    (s.renumber ρ).listedSince (s'.renumber ρ) ctx' (ρ m) = s.listedSince s' ctx m := by
  rw [listedSince, listedSince, enteredSince_renumber h, h.module_eq]

end ImportState

end ModuleLinker
