import Mathlib.Data.List.Nodup
import ModuleLinker.Proofs.Chain
import ModuleLinker.Proofs.Image.Tables

/-!
# Links in both directions

A type is linked to its declaring type, and the declaring type lists it; a member is linked to its
type, and the type lists it. A module is *linked* when the two directions agree exactly: every list
is the list of the entries that name its owner, in table order. Nothing is listed twice, in a wrong
place or not at all, and one equation for each list says so.

Links to outer entries go to smaller positions. So the chains of declaring types and of reference
scopes end, whatever else the module holds.
-/

namespace ModuleLinker.Module

theorem nodup_typeIds (m : Module) : m.typeIds.Nodup :=
  List.nodup_range.map fun _ _ h ↦ TypeId.mk.inj h

theorem length_le_of_subset_typeIds {m : Module} {ids : List TypeId} (hnodup : ids.Nodup)
    (hsub : ids ⊆ m.typeIds) : ids.length ≤ m.types.length := by
  simpa [typeIds] using (List.subperm_of_subset hnodup hsub).length_le

theorem nodup_methodIds (m : Module) : m.methodIds.Nodup :=
  List.nodup_range.map fun _ _ h ↦ MethodId.mk.inj h

theorem nodup_fieldIds (m : Module) : m.fieldIds.Nodup :=
  List.nodup_range.map fun _ _ h ↦ FieldId.mk.inj h

theorem pairwise_ids {α : Type} (mk : Nat → α) (index : α → Nat) (h : ∀ i, index (mk i) = i)
    (n : Nat) : ((List.range n).map mk).Pairwise fun a b ↦ index a < index b := by
  refine List.pairwise_map.mpr ?_
  simpa only [h] using List.pairwise_lt_range

/-- Every list of a type holds exactly the entries that name the type, in table order, and links to
outer entries go down. -/
structure Linked (m : Module) : Prop where
  declaring_lt : ∀ {t o : TypeId}, (m.typeDef t).declaring = some o → o.index < t.index
  nested_eq : ∀ o, (m.typeDef o).nested = m.typeIds.filter fun t ↦ (m.typeDef t).declaring = some o
  method_declaring : ∀ {d : MethodId}, d.index < m.methods.length →
    (m.method d).declaring.index < m.types.length
  methods_eq : ∀ t, (m.typeDef t).methods = m.methodIds.filter fun d ↦ (m.method d).declaring = t
  field_declaring : ∀ {d : FieldId}, d.index < m.fields.length →
    (m.field d).declaring.index < m.types.length
  fields_eq : ∀ t, (m.typeDef t).fields = m.fieldIds.filter fun d ↦ (m.field d).declaring = t
  scope_lt : ∀ {r o : TypeRefId}, (m.typeRef r).scope = .nested o → o.index < r.index

namespace Linked

variable {m m' : Module}

/-! ## Reading the links -/

theorem mem_nested (h : m.Linked) {t o : TypeId} :
    t ∈ (m.typeDef o).nested ↔ t.index < m.types.length ∧ (m.typeDef t).declaring = some o := by
  rw [h.nested_eq, List.mem_filter, mem_typeIds, decide_eq_true_eq]

theorem mem_methods (h : m.Linked) {d : MethodId} {t : TypeId} :
    d ∈ (m.typeDef t).methods ↔ d.index < m.methods.length ∧ (m.method d).declaring = t := by
  rw [h.methods_eq, List.mem_filter, mem_methodIds, decide_eq_true_eq]

theorem mem_fields (h : m.Linked) {d : FieldId} {t : TypeId} :
    d ∈ (m.typeDef t).fields ↔ d.index < m.fields.length ∧ (m.field d).declaring = t := by
  rw [h.fields_eq, List.mem_filter, mem_fieldIds, decide_eq_true_eq]

/-! ## Lists in table order -/

theorem pairwise_nested (h : m.Linked) (o : TypeId) :
    (m.typeDef o).nested.Pairwise fun t t' ↦ t.index < t'.index := by
  rw [h.nested_eq]
  exact (pairwise_ids TypeId.mk TypeId.index (fun _ ↦ rfl) _).filter _

theorem pairwise_methods (h : m.Linked) (t : TypeId) :
    (m.typeDef t).methods.Pairwise fun d d' ↦ d.index < d'.index := by
  rw [h.methods_eq]
  exact (pairwise_ids MethodId.mk MethodId.index (fun _ ↦ rfl) _).filter _

theorem pairwise_fields (h : m.Linked) (t : TypeId) :
    (m.typeDef t).fields.Pairwise fun f f' ↦ f.index < f'.index := by
  rw [h.fields_eq]
  exact (pairwise_ids FieldId.mk FieldId.index (fun _ ↦ rfl) _).filter _

/-! ## Additions keep a module linked

A new type or member is entered at the end of its table and at the end of the list of its owner,
so the list is still what a search through the table finds. -/

/-- A new entry behind the others joins the list of its owner, and nothing else moves. -/
theorem filter_owner_concat {α β : Type} [DecidableEq β] {owner owner' : α → β} {ids : List α}
    (hold : ∀ i ∈ ids, owner' i = owner i) (new : α) (o : β) :
    ((ids ++ [new]).filter fun i ↦ owner' i = o)
      = (ids.filter fun i ↦ owner i = o) ++ if owner' new = o then [new] else [] := by
  rw [List.filter_append]
  congr 1
  · refine List.filter_congr fun i hi ↦ ?_
    rw [hold i hi]
  · by_cases ho : owner' new = o <;> simp [ho]

theorem congr (h : m.Linked) (ht : m'.types = m.types) (hm : m'.methods = m.methods)
    (hf : m'.fields = m.fields) (hr : m'.typeRefs = m.typeRefs) : m'.Linked := by
  obtain ⟨h₁, h₂, h₃, h₄, h₅, h₆, h₇⟩ := h
  simp only [typeDef, typeIds, method, methodIds, field, fieldIds, typeRef, ← ht, ← hm, ← hf,
    ← hr] at h₁ h₂ h₃ h₄ h₅ h₆ h₇
  exact ⟨h₁, h₂, h₃, h₄, h₅, h₆, h₇⟩

theorem of_empty (ht : m.types = []) (hm : m.methods = []) (hf : m.fields = [])
    (hr : m.typeRefs = []) : m.Linked := by
  have hbare : Linked { name := "" } := by
    refine ⟨fun h ↦ ?_, fun _ ↦ rfl, fun h ↦ ?_, fun _ ↦ rfl, fun h ↦ ?_, fun _ ↦ rfl, fun h ↦ ?_⟩
    all_goals cases h
  exact hbare.congr ht hm hf hr

theorem updateType (h : m.Linked) (id : TypeId) (f : TypeDef → TypeDef)
    (hd : ∀ t, (f t).declaring = t.declaring) (hn : ∀ t, (f t).nested = t.nested)
    (hm : ∀ t, (f t).methods = t.methods) (hf : ∀ t, (f t).fields = t.fields) :
    (m.updateType id f).Linked := by
  have hdecl : ∀ t, ((m.updateType id f).typeDef t).declaring = (m.typeDef t).declaring := by
    intro t
    rw [typeDef_updateType]
    split <;> simp [hd]
  have hids : (m.updateType id f).typeIds = m.typeIds := typeIds_congr m (by simp)
  refine ⟨fun {t o} ht ↦ h.declaring_lt (hdecl t ▸ ht), fun o ↦ ?_, fun hlt ↦ ?_, fun t ↦ ?_,
    fun hlt ↦ ?_, fun t ↦ ?_, h.scope_lt⟩
  · simp only [hdecl, hids, ← h.nested_eq o]
    rw [typeDef_updateType]
    split <;> simp [hn]
  · rw [length_types_updateType]
    exact h.method_declaring hlt
  · have hms : ((m.updateType id f).typeDef t).methods = (m.typeDef t).methods := by
      rw [typeDef_updateType]
      split <;> simp [hm]
    exact hms.trans (h.methods_eq t)
  · rw [length_types_updateType]
    exact h.field_declaring hlt
  · have hfs : ((m.updateType id f).typeDef t).fields = (m.typeDef t).fields := by
      rw [typeDef_updateType]
      split <;> simp [hf]
    exact hfs.trans (h.fields_eq t)

theorem updateMethod (h : m.Linked) (id : MethodId) (f : MethodDef → MethodDef)
    (hd : ∀ d, (f d).declaring = d.declaring) : (m.updateMethod id f).Linked := by
  have hdecl : ∀ d, ((m.updateMethod id f).method d).declaring = (m.method d).declaring := by
    intro d
    rw [method_updateMethod]
    split <;> simp [hd]
  have hids : (m.updateMethod id f).methodIds = m.methodIds := methodIds_congr m (by simp)
  refine ⟨h.declaring_lt, h.nested_eq, fun hlt ↦ ?_, fun t ↦ ?_, h.field_declaring, h.fields_eq,
    h.scope_lt⟩
  · rw [hdecl]
    exact h.method_declaring (by simpa using hlt)
  · simp only [hdecl, hids]
    exact h.methods_eq t

theorem addType (h : m.Linked) {t : TypeDef}
    (hin : ∀ o, t.declaring = some o → o.index < m.types.length)
    (hn : t.nested = []) (hm : t.methods = []) (hf : t.fields = []) : (m.addType t).2.Linked := by
  have hdef := m.typeDef_addType hin
  have hold : ∀ i ∈ m.typeIds,
      ((m.addType t).2.typeDef i).declaring = (m.typeDef i).declaring := by
    intro i hi
    have hne : i ≠ ⟨m.types.length⟩ := fun he ↦ by simp [he] at hi
    rw [hdef, if_neg hne]
    split <;> rfl
  have hnew : ((m.addType t).2.typeDef ⟨m.types.length⟩).declaring = t.declaring := by
    rw [hdef, if_pos rfl]
  have hkeep : ∀ {β : Type} (f : TypeDef → List β), f t = [] → f default = [] →
      (∀ d nested, f { d with nested } = f d) →
      ∀ i, f ((m.addType t).2.typeDef i) = f (m.typeDef i) := by
    intro β f hf hdefault hnested i
    rw [hdef]
    split
    · next he => rw [hf, he, typeDef_of_not_lt (by simp), hdefault]
    · split
      · exact hnested _ _
      · rfl
  have htab := m.addType_tables t
  refine ⟨fun {i o} hi ↦ ?_, fun o ↦ ?_, fun hlt ↦ ?_, fun i ↦ ?_, fun hlt ↦ ?_, fun i ↦ ?_, ?_⟩
  · rw [hdef] at hi
    split at hi
    · next he => simpa [he] using hin o hi
    · split at hi <;> exact h.declaring_lt hi
  · rw [typeIds_succ m (by simp), filter_owner_concat hold, hnew, hdef, ← h.nested_eq o]
    by_cases ho : o = ⟨m.types.length⟩
    · have hno : t.declaring ≠ some o := fun he ↦ by simpa [ho] using hin o he
      subst ho
      rw [if_pos rfl, if_neg hno, hn, typeDef_of_not_lt (by simp)]
      rfl
    · rw [if_neg ho]
      split <;> simp
  · rw [htab] at hlt ⊢
    exact Nat.lt_trans (h.method_declaring hlt) (by simp)
  · rw [hkeep TypeDef.methods hm rfl (fun _ _ ↦ rfl), h.methods_eq i, htab]
    rfl
  · rw [htab] at hlt ⊢
    exact Nat.lt_trans (h.field_declaring hlt) (by simp)
  · rw [hkeep TypeDef.fields hf rfl (fun _ _ ↦ rfl), h.fields_eq i, htab]
    rfl
  · rw [htab]
    exact h.scope_lt

theorem addMethod (h : m.Linked) {d : MethodDef} (hin : d.declaring.index < m.types.length) :
    (m.addMethod d).2.Linked := by
  have hdef := m.typeDef_addMethod d
  have hdecl : ∀ t, ((m.addMethod d).2.typeDef t).declaring = (m.typeDef t).declaring := by
    intro t
    rw [hdef]
    split <;> rfl
  have hmeth := m.method_addMethod d
  have htypes : (m.addMethod d).2.typeIds = m.typeIds := typeIds_congr m (by simp)
  refine ⟨fun {t o} ht ↦ h.declaring_lt (hdecl t ▸ ht), fun o ↦ ?_, fun {i} hlt ↦ ?_, fun t ↦ ?_,
    fun hlt ↦ ?_, fun t ↦ ?_, h.scope_lt⟩
  · have hns : ((m.addMethod d).2.typeDef o).nested = (m.typeDef o).nested := by
      rw [hdef]
      split <;> rfl
    simp only [hns, hdecl, htypes, h.nested_eq o]
  · rw [hmeth, length_types_addMethod]
    split
    · exact hin
    · next hne =>
      have hi : i.index ≠ m.methods.length := fun he ↦ hne (congrArg MethodId.mk he)
      simp only [methods_addMethod, List.length_append, List.length_singleton] at hlt
      exact h.method_declaring (by omega)
  · have hold : ∀ i ∈ m.methodIds,
        ((m.addMethod d).2.method i).declaring = (m.method i).declaring := by
      intro i hi
      have hne : i ≠ ⟨m.methods.length⟩ := fun he ↦ by simp [he] at hi
      rw [hmeth, if_neg hne]
    rw [methodIds_succ m (by simp), filter_owner_concat hold, ← h.methods_eq, hmeth, if_pos rfl,
      hdef]
    by_cases ht : t = d.declaring
    · simp [ht, hin]
    · simp [ht, Ne.symm ht]
  · rw [length_types_addMethod]
    exact h.field_declaring hlt
  · have hfs : ((m.addMethod d).2.typeDef t).fields = (m.typeDef t).fields := by
      rw [hdef]
      split <;> rfl
    exact hfs.trans (h.fields_eq t)

theorem addField (h : m.Linked) {d : FieldDef} (hin : d.declaring.index < m.types.length) :
    (m.addField d).2.Linked := by
  have hdef := m.typeDef_addField d
  have hdecl : ∀ t, ((m.addField d).2.typeDef t).declaring = (m.typeDef t).declaring := by
    intro t
    rw [hdef]
    split <;> rfl
  have hfield := m.field_addField d
  have htypes : (m.addField d).2.typeIds = m.typeIds := typeIds_congr m (by simp)
  refine ⟨fun {t o} ht ↦ h.declaring_lt (hdecl t ▸ ht), fun o ↦ ?_, fun hlt ↦ ?_, fun t ↦ ?_,
    fun {i} hlt ↦ ?_, fun t ↦ ?_, h.scope_lt⟩
  · have hns : ((m.addField d).2.typeDef o).nested = (m.typeDef o).nested := by
      rw [hdef]
      split <;> rfl
    simp only [hns, hdecl, htypes, h.nested_eq o]
  · rw [length_types_addField]
    exact h.method_declaring hlt
  · have hms : ((m.addField d).2.typeDef t).methods = (m.typeDef t).methods := by
      rw [hdef]
      split <;> rfl
    exact hms.trans (h.methods_eq t)
  · rw [hfield, length_types_addField]
    split
    · exact hin
    · next hne =>
      have hi : i.index ≠ m.fields.length := fun he ↦ hne (congrArg FieldId.mk he)
      simp only [fields_addField, List.length_append, List.length_singleton] at hlt
      exact h.field_declaring (by omega)
  · have hold : ∀ i ∈ m.fieldIds,
        ((m.addField d).2.field i).declaring = (m.field i).declaring := by
      intro i hi
      have hne : i ≠ ⟨m.fields.length⟩ := fun he ↦ by simp [he] at hi
      rw [hfield, if_neg hne]
    rw [fieldIds_succ m (by simp), filter_owner_concat hold, ← h.fields_eq, hfield, if_pos rfl,
      hdef]
    by_cases ht : t = d.declaring
    · simp [ht, hin]
    · simp [ht, Ne.symm ht]

theorem addTypeRef (h : m.Linked) {r : TypeRef}
    (hin : ∀ o, r.scope = .nested o → o.index < m.typeRefs.length) :
    (m.addTypeRef r).2.Linked := by
  refine ⟨h.declaring_lt, h.nested_eq, h.method_declaring, h.methods_eq, h.field_declaring,
    h.fields_eq, fun {i o} hi ↦ ?_⟩
  rw [Module.addTypeRef, typeRef_append] at hi
  split at hi
  · next he => simpa [he] using hin o hi
  · exact h.scope_lt hi

/-! ## Chains end

Declaring types and outer references have smaller ids than what is nested in them, so their chains
have no more links than the table has entries. -/

theorem endsWithin_declaring (h : m.Linked) (t : TypeId) {n : Nat} (hn : t.index ≤ n) :
    Chain.endsWithin (fun t : TypeId ↦ (m.typeDef t).declaring) n t = true :=
  Chain.endsWithin_of_lt TypeId.index (fun _ _ ht ↦ h.declaring_lt ht) hn

theorem endsWithin_scope (h : m.Linked) (r : TypeRefId) {n : Nat} (hn : r.index ≤ n) :
    Chain.endsWithin (fun r : TypeRefId ↦ (m.typeRef r).scope.outer?) n r = true := by
  refine Chain.endsWithin_of_lt TypeRefId.index (fun i o hi ↦ ?_) hn
  cases hs : (m.typeRef i).scope with
  | nested outer =>
    obtain rfl : outer = o := by simpa [hs, Scope.outer?] using hi
    exact h.scope_lt hs
  | assembly _ | «local» => simp [hs, Scope.outer?] at hi

end Linked

end ModuleLinker.Module
