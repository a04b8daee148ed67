import Mathlib.Data.List.GetD
import Mathlib.Data.List.Range
import ModuleLinker.Image.Validity

/-!
# Reading the tables of a growing module

A module under construction grows by entries appended to its tables and by changes of single type
and method definitions. Each addition has one equation for every table that it touches; entries
outside a table read as the empty entry, so the equations hold at every id.
-/

namespace ModuleLinker.Module

/-- A table has an entry at a position. -/
def Has (m : Module) (x : TableKind × Nat) : Prop := x.2 < m.tableSize x.1

/-- The ids of the field definitions, in table order. -/
def fieldIds (m : Module) : List FieldId := (List.range m.fields.length).map FieldId.mk

@[simp] theorem mem_fieldIds {m : Module} {id : FieldId} :
    id ∈ m.fieldIds ↔ id.index < m.fields.length := by
  cases id
  simp [fieldIds]

/-! ## Lists read with a default

Tables are read with a default for ids that they do not have, so that reading never fails. The
lemmas say what is read after a change, in range and out of range. -/

private theorem getD_modify {α : Type} (l : List α) (i j : Nat) (f : α → α) (d : α) :
    (l.modify i f).getD j d = if j = i ∧ i < l.length then f (l.getD j d) else l.getD j d := by
  simp only [List.getD_eq_getElem?_getD, List.getElem?_modify]
  by_cases h : i = j
  · subst h
    by_cases hl : i < l.length
    · simp [hl]
    · simp [hl]
  · simp [h, Ne.symm h]

private theorem getD_append_singleton {α : Type} (l : List α) (a : α) (j : Nat) (d : α) :
    (l ++ [a]).getD j d = if j = l.length then a else l.getD j d := by
  simp only [List.getD_eq_getElem?_getD]
  rcases Nat.lt_trichotomy j l.length with h | h | h
  · simp [List.getElem?_append_left h, Nat.ne_of_lt h]
  · simp [h]
  · rw [List.getElem?_eq_none (by simp; omega), List.getElem?_eq_none (by omega)]
    simp [Nat.ne_of_gt h]

theorem mem_modify {α : Type} {l : List α} {i : Nat} {f : α → α} {a : α}
    (h : a ∈ l.modify i f) : a ∈ l ∨ ∃ b ∈ l, a = f b := by
  obtain ⟨j, hj⟩ := List.mem_iff_getElem?.mp h
  rw [List.getElem?_modify] at hj
  obtain ⟨b, hb, hab⟩ := Option.map_eq_some_iff.mp hj
  have hmem := List.mem_of_getElem? hb
  by_cases hij : i = j
  · exact .inr ⟨b, hmem, by simpa [hij] using hab.symm⟩
  · rw [if_neg hij] at hab
    exact .inl (hab ▸ hmem)

variable (m : Module)

/-! ## Changes of one definition -/

@[simp] theorem length_types_updateType (id : TypeId) (f : TypeDef → TypeDef) :
    (m.updateType id f).types.length = m.types.length := by
  simp [updateType]

theorem typeDef_updateType (id i : TypeId) (f : TypeDef → TypeDef) :
    (m.updateType id f).typeDef i
      = if i = id ∧ id.index < m.types.length then f (m.typeDef i) else m.typeDef i := by
  cases i
  cases id
  simp only [updateType, typeDef, getD_modify, TypeId.mk.injEq]

@[simp] theorem length_methods_updateMethod (id : MethodId) (f : MethodDef → MethodDef) :
    (m.updateMethod id f).methods.length = m.methods.length := by
  simp [updateMethod]

theorem method_updateMethod (id i : MethodId) (f : MethodDef → MethodDef) :
    (m.updateMethod id f).method i
      = if i = id ∧ id.index < m.methods.length then f (m.method i) else m.method i := by
  cases i
  cases id
  simp only [updateMethod, method, getD_modify, MethodId.mk.injEq]

/-! ## Additions

Adding a type or a member changes two things: its own table, and the list of its owner. To look at
them one by one, the link is made by a function of its own. -/

/-- The module with a type linked into the nested list of its declaring type, before the type is
entered. -/
private def linkNested (t : TypeDef) : Module :=
  match t.declaring with
  | some outer => m.updateType outer fun o ↦ { o with nested := o.nested ++ [⟨m.types.length⟩] }
  | none => m

private theorem addType_snd (t : TypeDef) :
    (m.addType t).2 = { m.linkNested t with types := (m.linkNested t).types ++ [t] } := rfl

private theorem length_types_linkNested (t : TypeDef) :
    (m.linkNested t).types.length = m.types.length := by
  unfold linkNested
  split <;> simp

@[simp] theorem length_types_addType (t : TypeDef) :
    (m.addType t).2.types.length = m.types.length + 1 := by
  simp [addType_snd, length_types_linkNested]

@[simp] theorem addType_fst (t : TypeDef) : (m.addType t).1 = ⟨m.types.length⟩ := rfl

theorem addType_tables (t : TypeDef) :
    (m.addType t).2 = { m with types := (m.addType t).2.types } := by
  rw [addType_snd]
  unfold linkNested
  split <;> rfl

theorem typeDef_addType {t : TypeDef} (hin : ∀ o, t.declaring = some o → o.index < m.types.length)
    (i : TypeId) :
    (m.addType t).2.typeDef i
      = if i = ⟨m.types.length⟩ then t
        else if t.declaring = some i then
          { m.typeDef i with nested := (m.typeDef i).nested ++ [⟨m.types.length⟩] }
        else m.typeDef i := by
  have happ : (m.addType t).2.typeDef i
      = if i = ⟨m.types.length⟩ then t else (m.linkNested t).typeDef i := by
    cases i
    simp only [addType_snd, typeDef, getD_append_singleton, length_types_linkNested,
      TypeId.mk.injEq]
  rw [happ]
  refine ite_congr rfl (fun _ ↦ rfl) fun _ ↦ ?_
  unfold linkNested
  cases hd : t.declaring with
  | none => simp
  | some o =>
    simp only [typeDef_updateType, Option.some.injEq]
    by_cases hi : i = o
    · simp [hi, hin o hd]
    · simp [hi, Ne.symm hi]

/-- Of the types that are there, only nested lists change. -/
theorem typeDef_addType_of_lt (t : TypeDef) {α : Type} (f : TypeDef → α)
    (hf : ∀ d nested, f { d with nested } = f d) {i : TypeId} (hi : i.index < m.types.length) :
    f ((m.addType t).2.typeDef i) = f (m.typeDef i) := by
  have happ : (m.addType t).2.typeDef i = (m.linkNested t).typeDef i := by
    simp only [addType_snd, typeDef, getD_append_singleton, length_types_linkNested,
      if_neg (Nat.ne_of_lt hi)]
  rw [happ, linkNested]
  split
  · rw [typeDef_updateType]
    split
    · exact hf _ _
    · rfl
  · rfl

@[simp] theorem addMethod_fst (d : MethodDef) : (m.addMethod d).1 = ⟨m.methods.length⟩ := rfl

@[simp] theorem length_types_addMethod (d : MethodDef) :
    (m.addMethod d).2.types.length = m.types.length := by
  simp [addMethod]

@[simp] theorem methods_addMethod (d : MethodDef) :
    (m.addMethod d).2.methods = m.methods ++ [d] := rfl

theorem method_addMethod (d : MethodDef) (i : MethodId) :
    (m.addMethod d).2.method i = if i = ⟨m.methods.length⟩ then d else m.method i := by
  cases i
  simp only [method, methods_addMethod, getD_append_singleton, MethodId.mk.injEq]

theorem typeDef_addMethod (d : MethodDef) (i : TypeId) :
    (m.addMethod d).2.typeDef i
      = if i = d.declaring ∧ d.declaring.index < m.types.length then
          { m.typeDef i with methods := (m.typeDef i).methods ++ [⟨m.methods.length⟩] }
        else m.typeDef i :=
  typeDef_updateType _ _ _ _

@[simp] theorem addField_fst (d : FieldDef) : (m.addField d).1 = ⟨m.fields.length⟩ := rfl

@[simp] theorem length_types_addField (d : FieldDef) :
    (m.addField d).2.types.length = m.types.length := by
  simp [addField]

@[simp] theorem fields_addField (d : FieldDef) :
    (m.addField d).2.fields = m.fields ++ [d] := rfl

theorem field_addField (d : FieldDef) (i : FieldId) :
    (m.addField d).2.field i = if i = ⟨m.fields.length⟩ then d else m.field i := by
  cases i
  simp only [field, fields_addField, getD_append_singleton, FieldId.mk.injEq]

theorem typeDef_addField (d : FieldDef) (i : TypeId) :
    (m.addField d).2.typeDef i
      = if i = d.declaring ∧ d.declaring.index < m.types.length then
          { m.typeDef i with fields := (m.typeDef i).fields ++ [⟨m.fields.length⟩] }
        else m.typeDef i :=
  typeDef_updateType _ _ _ _

theorem typeRef_append (r : TypeRef) (i : TypeRefId) :
    ({ m with typeRefs := m.typeRefs ++ [r] } : Module).typeRef i
      = if i = ⟨m.typeRefs.length⟩ then r else m.typeRef i := by
  cases i
  simp only [typeRef, getD_append_singleton, TypeRefId.mk.injEq]

theorem memberRef_append (r : MemberRef) (i : MemberRefId) :
    ({ m with memberRefs := m.memberRefs ++ [r] } : Module).memberRef i
      = if i = ⟨m.memberRefs.length⟩ then r else m.memberRef i := by
  cases i
  simp only [memberRef, getD_append_singleton, MemberRefId.mk.injEq]

theorem exportedType_addExportedType (e : ExportedType) (i : ExportId) :
    (m.addExportedType e).2.exportedType i
      = if i = ⟨m.exportedTypes.length⟩ then e else m.exportedType i := by
  cases i
  simp only [exportedType, addExportedType, getD_append_singleton, ExportId.mk.injEq]

/-! ## The ids in the tables -/

theorem typeIds_succ {m' : Module} (h : m'.types.length = m.types.length + 1) :
    m'.typeIds = m.typeIds ++ [⟨m.types.length⟩] := by
  simp [typeIds, h, List.range_succ]

theorem typeIds_congr {m' : Module} (h : m'.types.length = m.types.length) :
    m'.typeIds = m.typeIds := by
  simp [typeIds, h]

theorem methodIds_succ {m' : Module} (h : m'.methods.length = m.methods.length + 1) :
    m'.methodIds = m.methodIds ++ [⟨m.methods.length⟩] := by
  simp [methodIds, h, List.range_succ]

theorem methodIds_congr {m' : Module} (h : m'.methods.length = m.methods.length) :
    m'.methodIds = m.methodIds := by
  simp [methodIds, h]

theorem fieldIds_succ {m' : Module} (h : m'.fields.length = m.fields.length + 1) :
    m'.fieldIds = m.fieldIds ++ [⟨m.fields.length⟩] := by
  simp [fieldIds, h, List.range_succ]

theorem fieldIds_congr {m' : Module} (h : m'.fields.length = m.fields.length) :
    m'.fieldIds = m.fieldIds := by
  simp [fieldIds, h]

variable {m}

theorem typeDef_of_not_lt {i : TypeId} (h : ¬i.index < m.types.length) :
    m.typeDef i = default := by
  rw [typeDef, List.getD_eq_getElem?_getD, List.getElem?_eq_none (by omega)]
  rfl

theorem typeDef_congr {m' : Module} (h : m'.types = m.types) (i : TypeId) :
    m'.typeDef i = m.typeDef i := by
  rw [typeDef, h]
  rfl

theorem method_congr {m' : Module} (h : m'.methods = m.methods) (i : MethodId) :
    m'.method i = m.method i := by
  rw [method, h]
  rfl

theorem field_congr {m' : Module} (h : m'.fields = m.fields) (i : FieldId) :
    m'.field i = m.field i := by
  rw [field, h]
  rfl

theorem method_mem {i : MethodId} (h : i.index < m.methods.length) : m.method i ∈ m.methods := by
  rw [method, List.getD_eq_getElem _ _ h]
  exact List.getElem_mem h

theorem field_mem {i : FieldId} (h : i.index < m.fields.length) : m.field i ∈ m.fields := by
  rw [field, List.getD_eq_getElem _ _ h]
  exact List.getElem_mem h

theorem typeDef_mem {i : TypeId} (h : i.index < m.types.length) : m.typeDef i ∈ m.types := by
  rw [typeDef, List.getD_eq_getElem _ _ h]
  exact List.getElem_mem h

theorem typeRef_mem {i : TypeRefId} (h : i.index < m.typeRefs.length) :
    m.typeRef i ∈ m.typeRefs := by
  rw [typeRef, List.getD_eq_getElem _ _ h]
  exact List.getElem_mem h

theorem assemblyRef_mem {i : AssemblyRefId} (h : i.index < m.assemblyRefs.length) :
    m.assemblyRef i ∈ m.assemblyRefs := by
  rw [assemblyRef, List.getD_eq_getElem _ _ h]
  exact List.getElem_mem h

theorem exportedType_mem {i : ExportId} (h : i.index < m.exportedTypes.length) :
    m.exportedType i ∈ m.exportedTypes := by
  rw [exportedType, List.getD_eq_getElem _ _ h]
  exact List.getElem_mem h

end ModuleLinker.Module
