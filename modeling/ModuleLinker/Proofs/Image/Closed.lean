import ModuleLinker.Error
import ModuleLinker.Proofs.Image.Links

/-!
# Modules without stray ids

A module is *closed* when every id that an entry stores stands inside its table. Validation accepts
a module exactly when it is closed and its chains of declaring types and of reference scopes end;
both directions are used: inputs are known to be accepted, and outputs are shown to be.

A growing module stays closed when every id of an entry is an old one or stands inside the grown
tables.
-/

namespace ModuleLinker.Module

/-- Every id that an entry stores stands inside its table. -/
structure Closed (m : Module) : Prop where
  types : ∀ d ∈ m.types, ∀ x ∈ d.ids, m.Has x
  methods : ∀ d ∈ m.methods, ∀ x ∈ d.ids, m.Has x
  fields : ∀ d ∈ m.fields, ∀ x ∈ d.ids, m.Has x
  typeRefs : ∀ r ∈ m.typeRefs, ∀ x ∈ r.ids, m.Has x
  memberRefs : ∀ r ∈ m.memberRefs, ∀ x ∈ r.ids, m.Has x
  exportedTypes : ∀ e ∈ m.exportedTypes, ∀ x ∈ e.ids, m.Has x

theorem Closed.of_empty {m : Module} (ht : m.types = []) (hm : m.methods = []) (hf : m.fields = [])
    (hr : m.typeRefs = []) (hu : m.memberRefs = []) (he : m.exportedTypes = []) : m.Closed := by
  refine ⟨?_, ?_, ?_, ?_, ?_, ?_⟩
  all_goals simp [ht, hm, hf, hr, hu, he]

/-- No table of the one module is shorter in the other. -/
def Within (m m' : Module) : Prop := ∀ k, m.tableSize k ≤ m'.tableSize k

theorem Within.refl (m : Module) : m.Within m := fun _ ↦ Nat.le_refl _

theorem Within.trans {m m' m'' : Module} (h : m.Within m') (h' : m'.Within m'') : m.Within m'' :=
  fun k ↦ Nat.le_trans (h k) (h' k)

theorem Within.of_types {m : Module} {types : List TypeDef} (h : m.types.length ≤ types.length) :
    m.Within { m with types } := by
  intro k
  cases k with
  | type => exact h
  | method | field | typeRef | memberRef | assemblyRef | exportedType => exact Nat.le_refl _

theorem Has.mono {m m' : Module} {x : TableKind × Nat} (h : m.Has x) (hw : m.Within m') :
    m'.Has x :=
  Nat.lt_of_lt_of_le h (hw x.1)

/-- Outside the table there is only the empty type, which mentions nothing. -/
theorem Closed.has_of_typeDef {m : Module} (h : m.Closed) {t : TypeId} {x : TableKind × Nat}
    (hx : x ∈ (m.typeDef t).ids) : m.Has x := by
  by_cases ht : t.index < m.types.length
  · exact h.types _ (typeDef_mem ht) x hx
  · rw [typeDef_of_not_lt ht] at hx
    cases hx

theorem Closed.nested_lt {m : Module} (h : m.Closed) {t u : TypeId}
    (hu : u ∈ (m.typeDef t).nested) : u.index < m.types.length := by
  have hx : (.type, u.index) ∈ (m.typeDef t).ids := by
    simp only [TypeDef.ids, List.mem_append, List.mem_map]
    exact .inl (.inl (.inl (.inr ⟨u, hu, rfl⟩)))
  exact h.has_of_typeDef hx

theorem Closed.has_of_body {m : Module} (h : m.Closed) {id : MethodId}
    (hid : id.index < m.methods.length) {body : Body} (hbody : (m.method id).body = some body) :
    ∀ x ∈ body.ids, m.Has x := by
  intro x hx
  refine h.methods _ (method_mem hid) x (List.mem_append_right _ ?_)
  rw [hbody]
  exact hx

/-! ## Growing

An operation on a module changes one table, in one entry or at the end. The ids of the entries
afterwards are old ones or come from what was put in. -/

/-- A module that holds only old ids and ids inside its tables is closed. -/
theorem Closed.grow {m m' : Module} (h : m.Closed) (hw : m.Within m')
    (ht : ∀ d' ∈ m'.types, ∀ x ∈ d'.ids, (∃ d ∈ m.types, x ∈ d.ids) ∨ m'.Has x)
    (hm : ∀ d' ∈ m'.methods, ∀ x ∈ d'.ids, (∃ d ∈ m.methods, x ∈ d.ids) ∨ m'.Has x)
    (hf : ∀ d' ∈ m'.fields, ∀ x ∈ d'.ids, (∃ d ∈ m.fields, x ∈ d.ids) ∨ m'.Has x)
    (hr : ∀ r' ∈ m'.typeRefs, ∀ x ∈ r'.ids, (∃ r ∈ m.typeRefs, x ∈ r.ids) ∨ m'.Has x)
    (hu : ∀ r' ∈ m'.memberRefs, ∀ x ∈ r'.ids, (∃ r ∈ m.memberRefs, x ∈ r.ids) ∨ m'.Has x)
    (he : ∀ e' ∈ m'.exportedTypes, ∀ x ∈ e'.ids, (∃ e ∈ m.exportedTypes, x ∈ e.ids) ∨ m'.Has x) :
    m'.Closed := by
  refine ⟨fun d hd x hx ↦ ?_, fun d hd x hx ↦ ?_, fun d hd x hx ↦ ?_, fun d hd x hx ↦ ?_,
    fun d hd x hx ↦ ?_, fun d hd x hx ↦ ?_⟩
  · exact (ht d hd x hx).elim (fun ⟨d, hd, hx⟩ ↦ (h.types d hd x hx).mono hw) id
  · exact (hm d hd x hx).elim (fun ⟨d, hd, hx⟩ ↦ (h.methods d hd x hx).mono hw) id
  · exact (hf d hd x hx).elim (fun ⟨d, hd, hx⟩ ↦ (h.fields d hd x hx).mono hw) id
  · exact (hr d hd x hx).elim (fun ⟨d, hd, hx⟩ ↦ (h.typeRefs d hd x hx).mono hw) id
  · exact (hu d hd x hx).elim (fun ⟨d, hd, hx⟩ ↦ (h.memberRefs d hd x hx).mono hw) id
  · exact (he d hd x hx).elim (fun ⟨d, hd, hx⟩ ↦ (h.exportedTypes d hd x hx).mono hw) id

theorem ids_of_append {α : Type} {ids : α → List (TableKind × Nat)} {l : List α} {a : α}
    {P : TableKind × Nat → Prop} (ha : ∀ x ∈ ids a, P x) :
    ∀ b ∈ l ++ [a], ∀ x ∈ ids b, (∃ c ∈ l, x ∈ ids c) ∨ P x := by
  intro b hb x hx
  rcases List.mem_append.mp hb with hb | hb
  · exact .inl ⟨b, hb, hx⟩
  · rw [List.mem_singleton.mp hb] at hx
    exact .inr (ha x hx)

theorem ids_of_same {α : Type} {ids : α → List (TableKind × Nat)} {l : List α}
    {P : TableKind × Nat → Prop} : ∀ b ∈ l, ∀ x ∈ ids b, (∃ c ∈ l, x ∈ ids c) ∨ P x :=
  fun b hb _ hx ↦ .inl ⟨b, hb, hx⟩

theorem ids_of_modify {α : Type} {ids : α → List (TableKind × Nat)} {l : List α} {i : Nat}
    {f : α → α} {P : TableKind × Nat → Prop}
    (hf : ∀ a ∈ l, ∀ x ∈ ids (f a), x ∈ ids a ∨ P x) :
    ∀ b ∈ l.modify i f, ∀ x ∈ ids b, (∃ c ∈ l, x ∈ ids c) ∨ P x := by
  intro b hb x hx
  rcases mem_modify hb with hb | ⟨a, ha, rfl⟩
  · exact .inl ⟨b, hb, hx⟩
  · exact (hf a ha x hx).imp (fun hx ↦ ⟨a, ha, hx⟩) id

/-! ## Validation -/

private theorem mem_mentionsOf {α : Type} {table : TableKind} {ids : α → List (TableKind × Nat)}
    {entries : List α} {x : Mention} :
    x ∈ mentionsOf table ids entries
      ↔ ∃ i entry, entries[i]? = some entry ∧ ∃ y ∈ ids entry, ⟨⟨table, i⟩, y.1, y.2⟩ = x := by
  simp only [mentionsOf, List.mem_flatMap, Prod.exists, List.mem_map,
    List.mk_mem_zipIdx_iff_getElem?]
  exact ⟨fun ⟨e, i, h, hy⟩ ↦ ⟨i, e, h, hy⟩, fun ⟨i, e, h, hy⟩ ↦ ⟨e, i, h, hy⟩⟩

private theorem forall_mentionsOf {α : Type} {m : Module} {table : TableKind}
    {ids : α → List (TableKind × Nat)} {entries : List α} :
    (∀ x ∈ mentionsOf table ids entries, x.index < m.tableSize x.table)
      ↔ ∀ entry ∈ entries, ∀ y ∈ ids entry, m.Has y := by
  constructor
  · intro h entry he y hy
    obtain ⟨i, hi⟩ := List.mem_iff_getElem?.mp he
    exact h ⟨⟨table, i⟩, y.1, y.2⟩ (mem_mentionsOf.mpr ⟨i, entry, hi, y, hy, rfl⟩)
  · intro h x hx
    obtain ⟨i, entry, hi, y, hy, rfl⟩ := mem_mentionsOf.mp hx
    exact h entry (List.mem_of_getElem? hi) y hy

theorem closed_iff_forall_mentions {m : Module} :
    m.Closed ↔ ∀ x ∈ m.mentions, x.index < m.tableSize x.table := by
  simp only [mentions, List.mem_append, or_imp, forall_and, forall_mentionsOf]
  constructor
  · rintro ⟨h₁, h₂, h₃, h₄, h₅, h₆⟩
    exact ⟨⟨⟨⟨⟨h₁, h₂⟩, h₃⟩, h₄⟩, h₅⟩, h₆⟩
  · rintro ⟨⟨⟨⟨⟨h₁, h₂⟩, h₃⟩, h₄⟩, h₅⟩, h₆⟩
    exact ⟨h₁, h₂, h₃, h₄, h₅, h₆⟩

/-- Validation accepts exactly the closed modules whose chains end. -/
theorem fault?_eq_none_iff {m : Module} :
    m.fault? = none ↔ m.Closed
      ∧ (∀ i < m.types.length, Chain.endsWithin
          (fun t : TypeId ↦ (m.typeDef t).declaring) m.types.length ⟨i⟩ = true)
      ∧ ∀ i < m.typeRefs.length, Chain.endsWithin
          (fun r : TypeRefId ↦ (m.typeRef r).scope.outer?) m.typeRefs.length ⟨i⟩ = true := by
  have hmentions : m.Closed
      ↔ (m.mentions.find? fun r ↦ !decide (r.index < m.tableSize r.table)) = none := by
    rw [closed_iff_forall_mentions, List.find?_eq_none]
    simp
  have htypes : (∀ i < m.types.length, Chain.endsWithin
      (fun t : TypeId ↦ (m.typeDef t).declaring) m.types.length ⟨i⟩ = true)
        ↔ m.declaringCycle? = none := by
    rw [declaringCycle?, List.find?_eq_none]
    simp
  have hrefs : (∀ i < m.typeRefs.length, Chain.endsWithin
      (fun r : TypeRefId ↦ (m.typeRef r).scope.outer?) m.typeRefs.length ⟨i⟩ = true)
        ↔ m.scopeCycle? = none := by
    rw [scopeCycle?, List.find?_eq_none]
    simp
  rw [hmentions, htypes, hrefs, fault?]
  cases m.mentions.find? fun r ↦ !decide (r.index < m.tableSize r.table) with
  | some _ => simp
  | none =>
    cases m.declaringCycle? with
    | some _ => simp
    | none => simp

theorem validate_of_linked {m : Module} (hl : m.Linked) (hc : m.Closed) : m.validate = .ok () := by
  rw [validate_eq_ok_iff, fault?_eq_none_iff]
  exact ⟨hc, fun i hi ↦ hl.endsWithin_declaring ⟨i⟩ (Nat.le_of_lt hi),
    fun i hi ↦ hl.endsWithin_scope ⟨i⟩ (Nat.le_of_lt hi)⟩

/-! ## Chains of an accepted module -/

section Accepted

variable {m : Module} (h : m.fault? = none)
include h

theorem complete_declaringChain (id : TypeId) :
    Chain.Complete (fun t ↦ (m.typeDef t).declaring) (m.declaringChain id) := by
  refine Chain.complete_follow ?_
  by_cases hid : id.index < m.types.length
  · exact (fault?_eq_none_iff.mp h).2.1 id.index hid
  · have hnone : (m.typeDef id).declaring = none := by rw [typeDef_of_not_lt hid]; rfl
    exact Chain.endsWithin_of_none hnone _

theorem complete_scopeChain (id : TypeRefId) :
    Chain.Complete (fun r ↦ (m.typeRef r).scope.outer?) (m.scopeChain id) := by
  refine Chain.complete_follow ?_
  by_cases hid : id.index < m.typeRefs.length
  · exact (fault?_eq_none_iff.mp h).2.2 id.index hid
  · have hnone : (m.typeRef id).scope.outer? = none := by
      rw [typeRef, List.getD_eq_default _ _ (by omega)]
      rfl
    exact Chain.endsWithin_of_none hnone _

theorem closed_of_accepted : m.Closed := (fault?_eq_none_iff.mp h).1

end Accepted

end ModuleLinker.Module
