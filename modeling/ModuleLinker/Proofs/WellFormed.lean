import ModuleLinker.Proofs.Revision
import ModuleLinker.Proofs.Stages

/-!
# The output is well formed

Whatever the inputs say about their own links, the output of a link is accepted by validation, and
its links are exact: an entry is listed once, where it says that it belongs. The import keeps this
at every step. What is done after it touches nothing that is linked: resources are replaced, and the
two passes over the code put constants and literals in the place of others.
-/

namespace ModuleLinker

/-! ## Revisions

Both passes over the code put in operands without ids. So the finished output mentions what was
there before them, and nothing else. -/

/-- A revision that puts in no ids. -/
def Revision.Plain (change : Revision) : Prop :=
  ∀ {id is position j}, change id is position = some j → j.operand.ids = []

theorem plain_shiftOffset (m : Module) (map : SymbolMap) (offsets : Table ModuleId Nat) :
    (shiftOffset m map offsets).Plain := by
  intro id is position j h
  obtain ⟨_, _, _, -, -, -, -, rfl⟩ := shiftOffset_eq_some.mp h
  rfl

theorem plain_patchLocator (ctx : Context) (map : SymbolMap) (m : Module) :
    (patchLocator ctx map m).Plain := by
  intro id is position j h
  obtain ⟨_, _, _, -, rfl⟩ := exists_string_of_patchLocator h
  rfl

theorem Body.ids_revise {b : Body} {change : List Instruction → Nat → Option Instruction}
    (hplain : ∀ {is position j}, change is position = some j → j.operand.ids = []) :
    ∀ x ∈ (b.revise change).ids, x ∈ b.ids := by
  intro x hx
  rcases List.mem_append.mp hx with hx | hx
  · exact List.mem_append_left _ hx
  · obtain ⟨i, hi, hx⟩ := List.mem_flatMap.mp hx
    obtain ⟨k, hk, rfl⟩ := List.mem_mapIdx.mp hi
    refine List.mem_append_right _ (List.mem_flatMap.mpr ⟨_, List.getElem_mem hk, ?_⟩)
    cases hj : change b.instructions k with
    | none => simpa [hj] using hx
    | some j => simp [hj, hplain hj] at hx

namespace Module

variable {m : Module}

theorem Linked.revise (h : m.Linked) (change : Revision) : (m.revise change).Linked := by
  have hdecl : ∀ id, ((m.revise change).method id).declaring = (m.method id).declaring := by
    intro id
    rw [method_revise]
  have hids : (m.revise change).methodIds = m.methodIds := methodIds_congr m (by simp)
  refine ⟨h.declaring_lt, h.nested_eq, fun hlt ↦ ?_, fun t ↦ ?_, h.field_declaring, h.fields_eq,
    h.scope_lt⟩
  · rw [hdecl]
    exact h.method_declaring (by simpa using hlt)
  · simp only [hdecl, hids]
    exact h.methods_eq t

theorem Closed.revise (h : m.Closed) {change : Revision} (hplain : change.Plain) :
    (m.revise change).Closed := by
  have hwithin : m.Within (m.revise change) := by
    intro k
    cases k <;> simp [tableSize, Module.revise]
  refine h.grow hwithin ?_ ?_ ?_ ?_ ?_ ?_
  · exact fun d hd x hx ↦ .inl ⟨d, hd, hx⟩
  · intro d' hd' x hx
    obtain ⟨i, hi, rfl⟩ := List.mem_mapIdx.mp hd'
    refine .inl ⟨m.methods[i], List.getElem_mem hi, ?_⟩
    rcases List.mem_append.mp hx with hx | hx
    · exact List.mem_append_left _ hx
    · refine List.mem_append_right _ ?_
      cases hbody : m.methods[i].body with
      | none => simp [hbody] at hx
      | some b =>
        simp only [hbody, Option.map_some, Option.getD_some] at hx ⊢
        exact Body.ids_revise hplain x hx
  · exact fun d hd x hx ↦ .inl ⟨d, hd, hx⟩
  · exact fun r hr x hx ↦ .inl ⟨r, hr, hx⟩
  · exact fun r hr x hx ↦ .inl ⟨r, hr, hx⟩
  · exact fun e he x hx ↦ .inl ⟨e, he, hx⟩

theorem Closed.of_tables {m' : Module} (h : m.Closed) (ht : m'.types = m.types)
    (hm : m'.methods = m.methods) (hf : m'.fields = m.fields) (hr : m'.typeRefs = m.typeRefs)
    (hu : m'.memberRefs = m.memberRefs) (ha : m'.assemblyRefs = m.assemblyRefs)
    (he : m'.exportedTypes = m.exportedTypes) : m'.Closed := by
  have hhas : ∀ x, m.Has x → m'.Has x := by
    intro x hx
    unfold Has at hx ⊢
    cases hk : x.1 <;> simpa [hk, tableSize, ht, hm, hf, hr, hu, ha, he] using hx
  refine ⟨?_, ?_, ?_, ?_, ?_, ?_⟩
  · exact fun d hd x hx ↦ hhas x (h.types d (ht ▸ hd) x hx)
  · exact fun d hd x hx ↦ hhas x (h.methods d (hm ▸ hd) x hx)
  · exact fun d hd x hx ↦ hhas x (h.fields d (hf ▸ hd) x hx)
  · exact fun r hd x hx ↦ hhas x (h.typeRefs r (hr ▸ hd) x hx)
  · exact fun r hd x hx ↦ hhas x (h.memberRefs r (hu ▸ hd) x hx)
  · exact fun e hd x hx ↦ hhas x (h.exportedTypes e (he ▸ hd) x hx)

/-! ## Exact links

Each list of a linked module has what names its owner. To say that of all lists together, entries
are counted over all types: an entry names one owner, so it is counted once. -/

/-- Links agree in both directions, over all lists of the module together, and links to outer
entries go down. -/
structure ExactLinks (m : Module) : Prop where
  /-- A type that names a declaring type is in the list of that type. -/
  nested_mem : ∀ t ∈ m.typeIds, ∀ o, (m.typeDef t).declaring = some o → t ∈ (m.typeDef o).nested
  /-- It is in no other list, and in this one once; types that name none are in no list. -/
  nested_count : ∀ t ∈ m.typeIds, (m.types.flatMap TypeDef.nested).count t
    = if (m.typeDef t).declaring.isSome then 1 else 0
  method_mem : ∀ d ∈ m.methodIds, d ∈ (m.typeDef (m.method d).declaring).methods
  method_count : ∀ d ∈ m.methodIds, (m.types.flatMap TypeDef.methods).count d = 1
  field_mem : ∀ f ∈ m.fieldIds, f ∈ (m.typeDef (m.field f).declaring).fields
  field_count : ∀ f ∈ m.fieldIds, (m.types.flatMap TypeDef.fields).count f = 1
  declaring_lt : ∀ t o, (m.typeDef t).declaring = some o → o.index < t.index
  outer_lt : ∀ r o, (m.typeRef r).scope = .nested o → o.index < r.index

theorem types_eq_map (m : Module) : m.types = m.typeIds.map m.typeDef := by
  refine List.ext_getElem (by simp [typeIds]) fun i h _ ↦ ?_
  simp only [typeIds, typeDef, List.getElem_map, List.getElem_range]
  exact (List.getD_eq_getElem _ _ h).symm

/-- Over all types, the lists of the entries that name their owner hold every entry once that has an
owner among the types. -/
theorem count_lists {α : Type} [DecidableEq α] {ids : List α} (hids : ids.Nodup)
    (owner : α → Option TypeId) (list : TypeDef → List α)
    (hlist : ∀ o, list (m.typeDef o) = ids.filter fun i ↦ owner i = some o)
    (hin : ∀ i ∈ ids, ∀ o, owner i = some o → o ∈ m.typeIds) {i : α} (hi : i ∈ ids) :
    (m.types.flatMap list).count i = if (owner i).isSome then 1 else 0 := by
  have heq : m.types.flatMap list
      = m.typeIds.flatMap fun o ↦ ids.filter fun i ↦ owner i = some o := by
    rw [types_eq_map, List.flatMap_map]
    simp only [hlist]
  -- no entry has two owners, so none is in two lists
  have hnodup : (m.types.flatMap list).Nodup := by
    rw [heq]
    refine List.nodup_flatMap.mpr ⟨fun o _ ↦ hids.filter _, ?_⟩
    refine m.nodup_typeIds.imp fun {o o'} hne ↦ ?_
    rintro i hi hi'
    have ho := of_decide_eq_true (List.mem_filter.mp hi).2
    have ho' := of_decide_eq_true (List.mem_filter.mp hi').2
    exact hne (Option.some.inj (ho.symm.trans ho'))
  have hmem : i ∈ m.types.flatMap list ↔ (owner i).isSome := by
    rw [heq, List.mem_flatMap, Option.isSome_iff_exists]
    constructor
    · rintro ⟨o, -, hmem⟩
      exact ⟨o, of_decide_eq_true (List.mem_filter.mp hmem).2⟩
    · rintro ⟨o, ho⟩
      exact ⟨o, hin i hi o ho, List.mem_filter.mpr ⟨hi, decide_eq_true ho⟩⟩
  rw [hnodup.count, if_congr hmem rfl rfl]

/-- A linked module has exact links. -/
theorem Linked.exactLinks (h : m.Linked) : m.ExactLinks where
  nested_mem t ht o ho := h.mem_nested.mpr ⟨mem_typeIds.mp ht, ho⟩
  nested_count t ht := by
    refine count_lists m.nodup_typeIds (fun t ↦ (m.typeDef t).declaring) TypeDef.nested
      (fun o ↦ h.nested_eq o) (fun i hi o ho ↦ ?_) ht
    exact mem_typeIds.mpr (Nat.lt_trans (h.declaring_lt ho) (mem_typeIds.mp hi))
  method_mem d hd := h.mem_methods.mpr ⟨mem_methodIds.mp hd, rfl⟩
  method_count d hd := by
    refine count_lists m.nodup_methodIds (fun d ↦ some (m.method d).declaring) TypeDef.methods
      (fun o ↦ ?_) (fun i hi o ho ↦ ?_) hd
    · simpa only [Option.some.injEq] using h.methods_eq o
    · cases ho
      exact mem_typeIds.mpr (h.method_declaring (mem_methodIds.mp hi))
  field_mem f hf := h.mem_fields.mpr ⟨mem_fieldIds.mp hf, rfl⟩
  field_count f hf := by
    refine count_lists m.nodup_fieldIds (fun f ↦ some (m.field f).declaring) TypeDef.fields
      (fun o ↦ ?_) (fun i hi o ho ↦ ?_) hf
    · simpa only [Option.some.injEq] using h.fields_eq o
    · cases ho
      exact mem_typeIds.mpr (h.field_declaring (mem_fieldIds.mp hi))
  declaring_lt _ _ ht := h.declaring_lt ht
  outer_lt _ _ hr := h.scope_lt hr

end Module

/-! ## The output -/

/-- The output of a sound import is linked and closed. -/
theorem ImportState.Sound.finish {s : ImportState} {ctx : Context} (h : s.Sound ctx) :
    (s.finish ctx).Linked ∧ (s.finish ctx).Closed := by
  -- merged resources come first, and both revisions only change literals
  let m : Module := { s.target with resources := (mergeResources ctx).1 }
  have hm : m.Linked ∧ m.Closed :=
    ⟨h.linked.congr rfl rfl rfl rfl, h.closed.of_tables rfl rfl rfl rfl rfl rfl rfl⟩
  have hshifted : (applyOffsets m s.map (mergeResources ctx).2.offsets).2.Linked
      ∧ (applyOffsets m s.map (mergeResources ctx).2.offsets).2.Closed := by
    unfold applyOffsets
    split
    · exact hm
    · exact ⟨hm.1.revise _, hm.2.revise (plain_shiftOffset _ _ _)⟩
  exact ⟨hshifted.1.revise _, hshifted.2.revise (plain_patchLocator _ _ _)⟩

/-- Every output of a link is accepted by validation, and its links are exact. -/
theorem wellFormed_of_link {settings : Settings} {inputs : List Input} {r : Linked}
    (h : link settings inputs = .ok r) : r.module.validate = .ok () ∧ r.module.ExactLinks := by
  obtain ⟨ctx, s, mvid, hinputs, hall, hmodule⟩ := link_eq_ok h
  have hctx := (Registry.accepted_of_ofInputs hinputs).1
  obtain ⟨hlinked, hclosed⟩ := (Import.sound_of_all hctx hall).finish
  rw [hmodule]
  have hlinked' : Module.Linked { s.finish ctx with mvid } := hlinked.congr rfl rfl rfl rfl
  have hclosed' : Module.Closed { s.finish ctx with mvid } :=
    hclosed.of_tables rfl rfl rfl rfl rfl rfl rfl
  exact ⟨Module.validate_of_linked hlinked' hclosed', hlinked'.exactLinks⟩

/-! ## Inputs that contradict themselves -/

/-- A program whose first type lists the second one twice, which names no declaring type, and a
field twice that belongs to the second one; and a library with a method that no type lists. -/
def tangled : List Input :=
  [{ isPrimary := true
     module :=
      { name := "App"
        types := [
          { name := "Outer", nested := [⟨1⟩, ⟨1⟩], fields := [⟨0⟩, ⟨0⟩] }, { name := "Inner" }]
        fields := [
          { name := "value", access := .public, isStatic := true, fieldType := .definition ⟨1⟩
            declaring := ⟨1⟩ }] } },
   { isPrimary := false
     module :=
      { name := "Lib"
        types := [{ nspace := "Lib", name := "Tool" }]
        methods := [{ name := "Run", access := .public, isStatic := true, declaring := ⟨0⟩ }] } }]

theorem wellFormed_tangled :
    ∃ r, link {} tangled = .ok r ∧ r.module.validate = .ok () ∧ r.module.ExactLinks := by
  have hok : (link {} tangled).isOk = true := by decide +kernel
  cases h : link {} tangled with
  | error e =>
    rw [h] at hok
    cases hok
  | ok r => exact ⟨r, rfl, wellFormed_of_link h⟩

end ModuleLinker
