import Mathlib.Tactic.Tauto
import ModuleLinker.Proofs.Image.Closed
import ModuleLinker.Target

/-!
# What additions leave in place

A module under construction only grows. An entry that is there keeps its position, and what others
rely on stays as it is: a reference is never changed, an external module keeps its name and its
version only rises, a field is never changed, of a method only the body is, and of a type only what
it inherits and holds.

References and external modules are looked for before they are added, so the output names each of
them once.
-/

namespace ModuleLinker

/-- A method without its body. -/
def MethodDef.outside (d : MethodDef) : MethodDef := { d with body := none }

/-- A type without its base, its interfaces and its lists. -/
def TypeDef.outside (d : TypeDef) : TypeDef :=
  { d with base := none, interfaces := [], nested := [], fields := [], methods := [] }

namespace Module

/-- Every entry of the one module is one of the other, except that bodies and the bases, interfaces
and lists of types may differ, and that versions of external modules may be higher. -/
structure Grows (m m' : Module) : Prop where
  within : m.Within m'
  typeDef : ∀ {t : TypeId}, t.index < m.types.length →
    (m'.typeDef t).outside = (m.typeDef t).outside
  typeRef : ∀ {r : TypeRefId}, r.index < m.typeRefs.length → m'.typeRef r = m.typeRef r
  memberRef : ∀ {r : MemberRefId}, r.index < m.memberRefs.length → m'.memberRef r = m.memberRef r
  assembly : ∀ {a : AssemblyRefId}, a.index < m.assemblyRefs.length →
    (m'.assemblyRef a).name = (m.assemblyRef a).name
  version : ∀ {a : AssemblyRefId}, a.index < m.assemblyRefs.length →
    (m.assemblyRef a).version ≤ (m'.assemblyRef a).version
  field : ∀ {d : FieldId}, d.index < m.fields.length → m'.field d = m.field d
  method : ∀ {d : MethodId}, d.index < m.methods.length →
    (m'.method d).outside = (m.method d).outside

namespace Grows

variable {m m' m'' : Module}

theorem refl (m : Module) : m.Grows m :=
  ⟨.refl m, fun _ ↦ rfl, fun _ ↦ rfl, fun _ ↦ rfl, fun _ ↦ rfl, fun _ ↦ .refl, fun _ ↦ rfl,
    fun _ ↦ rfl⟩

theorem trans (h : m.Grows m') (h' : m'.Grows m'') : m.Grows m'' where
  within := h.within.trans h'.within
  typeDef ht := (h'.typeDef (Nat.lt_of_lt_of_le ht (h.within .type))).trans (h.typeDef ht)
  typeRef hr := (h'.typeRef (Nat.lt_of_lt_of_le hr (h.within .typeRef))).trans (h.typeRef hr)
  memberRef hr :=
    (h'.memberRef (Nat.lt_of_lt_of_le hr (h.within .memberRef))).trans (h.memberRef hr)
  assembly ha :=
    (h'.assembly (Nat.lt_of_lt_of_le ha (h.within .assemblyRef))).trans (h.assembly ha)
  version ha :=
    Version.le_trans (h.version ha) (h'.version (Nat.lt_of_lt_of_le ha (h.within .assemblyRef)))
  field hd := (h'.field (Nat.lt_of_lt_of_le hd (h.within .field))).trans (h.field hd)
  method hd := (h'.method (Nat.lt_of_lt_of_le hd (h.within .method))).trans (h.method hd)

/-! ## Additions

Each operation of a module under construction is one of three changes: an entry at the end of a
table, a change of what a type inherits and lists, or another body. -/

/-- Changes of the types alone that leave the outside of each type as it was. -/
theorem of_types {types : List TypeDef} (h : m.types.length ≤ types.length)
    (houtside : ∀ {t : TypeId}, t.index < m.types.length →
      (types.getD t.index default).outside = (m.typeDef t).outside) :
    m.Grows { m with types } :=
  ⟨.of_types h, houtside, fun _ ↦ rfl, fun _ ↦ rfl, fun _ ↦ rfl, fun _ ↦ .refl, fun _ ↦ rfl,
    fun _ ↦ rfl⟩

theorem addType (m : Module) (t : TypeDef) : m.Grows (m.addType t).2 := by
  rw [addType_tables]
  exact of_types (by simp) fun ht ↦ m.typeDef_addType_of_lt t TypeDef.outside (fun _ _ ↦ rfl) ht

theorem updateType (m : Module) (id : TypeId) {f : TypeDef → TypeDef}
    (hf : ∀ d, (f d).outside = d.outside) : m.Grows (m.updateType id f) := by
  refine of_types (by simp) fun {t} _ ↦ ?_
  change ((m.updateType id f).typeDef t).outside = _
  rw [typeDef_updateType]
  split
  · exact hf _
  · rfl

theorem addMethod (m : Module) (d : MethodDef) : m.Grows (m.addMethod d).2 := by
  refine ⟨fun k ↦ ?_, fun {t} _ ↦ ?_, fun _ ↦ rfl, fun _ ↦ rfl, fun _ ↦ rfl, fun _ ↦ .refl,
    fun _ ↦ rfl, fun {i} hi ↦ ?_⟩
  · cases k with
    | type => exact Nat.le_of_eq (m.length_types_addMethod d).symm
    | method => simp [tableSize]
    | field | typeRef | memberRef | assemblyRef | exportedType => exact Nat.le_refl _
  · rw [typeDef_addMethod]
    split <;> rfl
  · have hne : i ≠ ⟨m.methods.length⟩ := fun he ↦ by simp [he] at hi
    rw [method_addMethod, if_neg hne]

theorem addField (m : Module) (d : FieldDef) : m.Grows (m.addField d).2 := by
  refine ⟨fun k ↦ ?_, fun {t} _ ↦ ?_, fun _ ↦ rfl, fun _ ↦ rfl, fun _ ↦ rfl, fun _ ↦ .refl,
    fun {i} hi ↦ ?_, fun _ ↦ rfl⟩
  · cases k with
    | type => exact Nat.le_of_eq (m.length_types_addField d).symm
    | field => simp [tableSize]
    | method | typeRef | memberRef | assemblyRef | exportedType => exact Nat.le_refl _
  · rw [typeDef_addField]
    split <;> rfl
  · have hne : i ≠ ⟨m.fields.length⟩ := fun he ↦ by simp [he] at hi
    rw [field_addField, if_neg hne]

theorem updateMethod (m : Module) (id : MethodId) {f : MethodDef → MethodDef}
    (hf : ∀ d, (f d).outside = d.outside) : m.Grows (m.updateMethod id f) := by
  refine ⟨fun k ↦ ?_, fun _ ↦ rfl, fun _ ↦ rfl, fun _ ↦ rfl, fun _ ↦ rfl, fun _ ↦ .refl,
    fun _ ↦ rfl, fun _ ↦ ?_⟩
  · cases k with
    | method => exact Nat.le_of_eq (m.length_methods_updateMethod id f).symm
    | type | field | typeRef | memberRef | assemblyRef | exportedType => exact Nat.le_refl _
  · rw [method_updateMethod]
    split
    · exact hf _
    · rfl

theorem addTypeRef (m : Module) (r : TypeRef) : m.Grows (m.addTypeRef r).2 := by
  refine ⟨fun k ↦ ?_, fun _ ↦ rfl, fun {i} hi ↦ ?_, fun _ ↦ rfl, fun _ ↦ rfl, fun _ ↦ .refl,
    fun _ ↦ rfl, fun _ ↦ rfl⟩
  · cases k with
    | typeRef => simp [tableSize, Module.addTypeRef]
    | type | method | field | memberRef | assemblyRef | exportedType => exact Nat.le_refl _
  · have hne : i ≠ ⟨m.typeRefs.length⟩ := fun he ↦ by simp [he] at hi
    rw [Module.addTypeRef, typeRef_append, if_neg hne]

theorem addMemberRef (m : Module) (r : MemberRef) : m.Grows (m.addMemberRef r).2 := by
  refine ⟨fun k ↦ ?_, fun _ ↦ rfl, fun _ ↦ rfl, fun {i} hi ↦ ?_, fun _ ↦ rfl, fun _ ↦ .refl,
    fun _ ↦ rfl, fun _ ↦ rfl⟩
  · cases k with
    | memberRef => simp [tableSize, Module.addMemberRef]
    | type | method | field | typeRef | assemblyRef | exportedType => exact Nat.le_refl _
  · have hne : i ≠ ⟨m.memberRefs.length⟩ := fun he ↦ by simp [he] at hi
    rw [Module.addMemberRef, memberRef_append, if_neg hne]

theorem addExportedType (m : Module) (e : ExportedType) : m.Grows (m.addExportedType e).2 := by
  refine ⟨fun k ↦ ?_, fun _ ↦ rfl, fun _ ↦ rfl, fun _ ↦ rfl, fun _ ↦ rfl, fun _ ↦ .refl,
    fun _ ↦ rfl, fun _ ↦ rfl⟩
  cases k with
  | exportedType => simp [tableSize, Module.addExportedType]
  | type | method | field | typeRef | memberRef | assemblyRef => exact Nat.le_refl _

/-- Changes of the external modules that keep their names and lower no version. -/
theorem of_assemblyRefs {rs : List AssemblyRef} (h : m.assemblyRefs.length ≤ rs.length)
    (hname : ∀ {a : AssemblyRefId}, a.index < m.assemblyRefs.length →
      (rs.getD a.index default).name = (m.assemblyRef a).name)
    (hversion : ∀ {a : AssemblyRefId}, a.index < m.assemblyRefs.length →
      (m.assemblyRef a).version ≤ (rs.getD a.index default).version) :
    m.Grows { m with assemblyRefs := rs } := by
  refine ⟨fun k ↦ ?_, fun _ ↦ rfl, fun _ ↦ rfl, fun _ ↦ rfl, hname, hversion, fun _ ↦ rfl,
    fun _ ↦ rfl⟩
  cases k with
  | assemblyRef => exact h
  | type | method | field | typeRef | memberRef | exportedType => exact Nat.le_refl _

end Grows

/-! ## Additions keep a module closed

What an operation brings in is given by its arguments. If those are ids of the module, it stays
closed; the lists of types only get ids of entries that have just been added. -/

namespace Closed

variable {m : Module}

theorem exists_typeDef_of_mem {d : TypeDef} (hd : d ∈ m.types) :
    ∃ i : TypeId, i.index < m.types.length ∧ m.typeDef i = d := by
  obtain ⟨i, hi, heq⟩ := List.getElem_of_mem hd
  exact ⟨⟨i⟩, hi, by rw [typeDef, List.getD_eq_getElem _ _ hi, heq]⟩

private theorem mem_ids_nested {d : TypeDef} {id : TypeId} {x : TableKind × Nat}
    (hx : x ∈ ({ d with nested := d.nested ++ [id] } : TypeDef).ids) :
    x ∈ d.ids ∨ x = (.type, id.index) := by
  simp only [TypeDef.ids, List.map_append, List.map_cons, List.map_nil, List.mem_append,
    List.mem_singleton] at hx ⊢
  tauto

private theorem mem_ids_methods {d : TypeDef} {id : MethodId} {x : TableKind × Nat}
    (hx : x ∈ ({ d with methods := d.methods ++ [id] } : TypeDef).ids) :
    x ∈ d.ids ∨ x = (.method, id.index) := by
  simp only [TypeDef.ids, List.map_append, List.map_cons, List.map_nil, List.mem_append,
    List.mem_singleton] at hx ⊢
  tauto

private theorem mem_ids_fields {d : TypeDef} {id : FieldId} {x : TableKind × Nat}
    (hx : x ∈ ({ d with fields := d.fields ++ [id] } : TypeDef).ids) :
    x ∈ d.ids ∨ x = (.field, id.index) := by
  simp only [TypeDef.ids, List.map_append, List.map_cons, List.map_nil, List.mem_append,
    List.mem_singleton] at hx ⊢
  tauto

theorem addType (h : m.Closed) {t : TypeDef}
    (hin : ∀ o, t.declaring = some o → o.index < m.types.length)
    (hids : ∀ x ∈ t.ids, (m.addType t).2.Has x) : (m.addType t).2.Closed := by
  have hg := Grows.addType m t
  have htab := m.addType_tables t
  refine h.grow hg.within (fun d hd x hx ↦ ?_) ?_ ?_ ?_ ?_ ?_
  · obtain ⟨i, hi, rfl⟩ := exists_typeDef_of_mem hd
    rw [m.typeDef_addType hin] at hx
    split at hx
    · exact .inr (hids x hx)
    · next hne =>
      have hlt : i.index < m.types.length := by
        have : i.index ≠ m.types.length := fun he ↦ hne (congrArg TypeId.mk he)
        rw [length_types_addType] at hi
        omega
      split at hx
      · rcases mem_ids_nested hx with hx | rfl
        · exact .inl ⟨_, typeDef_mem hlt, hx⟩
        · exact .inr (by simp [Has, tableSize])
      · exact .inl ⟨_, typeDef_mem hlt, hx⟩
  all_goals rw [htab]; exact ids_of_same

theorem updateType (h : m.Closed) (id : TypeId) {f : TypeDef → TypeDef}
    (hf : ∀ d ∈ m.types, ∀ x ∈ (f d).ids, x ∈ d.ids ∨ m.Has x) : (m.updateType id f).Closed := by
  have hw : m.Within (m.updateType id f) := Within.of_types (by simp)
  refine h.grow hw (ids_of_modify fun d hd x hx ↦ (hf d hd x hx).imp_right (·.mono hw)) ?_ ?_ ?_
    ?_ ?_
  all_goals exact ids_of_same

theorem addMethod (h : m.Closed) {d : MethodDef} (hids : ∀ x ∈ d.ids, m.Has x) :
    (m.addMethod d).2.Closed := by
  have hw := (Grows.addMethod m d).within
  refine h.grow hw (ids_of_modify fun t _ x hx ↦ ?_)
    (ids_of_append fun x hx ↦ (hids x hx).mono hw) ?_ ?_ ?_ ?_
  · rcases mem_ids_methods hx with hx | rfl
    · exact .inl hx
    · exact .inr (by simp [Has, tableSize])
  all_goals exact ids_of_same

theorem addField (h : m.Closed) {d : FieldDef} (hids : ∀ x ∈ d.ids, m.Has x) :
    (m.addField d).2.Closed := by
  have hw := (Grows.addField m d).within
  refine h.grow hw (ids_of_modify fun t _ x hx ↦ ?_) ids_of_same
    (ids_of_append fun x hx ↦ (hids x hx).mono hw) ?_ ?_ ?_
  · rcases mem_ids_fields hx with hx | rfl
    · exact .inl hx
    · exact .inr (by simp [Has, tableSize])
  all_goals exact ids_of_same

theorem setBody (h : m.Closed) (id : MethodId) {body : Body} (hids : ∀ x ∈ body.ids, m.Has x) :
    (m.updateMethod id fun d ↦ { d with body := some body }).Closed := by
  have hw :=
    (Grows.updateMethod m id (f := fun d ↦ { d with body := some body }) fun _ ↦ rfl).within
  refine h.grow hw ids_of_same (ids_of_modify fun d _ x hx ↦ ?_) ?_ ?_ ?_ ?_
  · rcases List.mem_append.mp hx with hx | hx
    · exact .inl (List.mem_append_left _ hx)
    · exact .inr ((hids x hx).mono hw)
  all_goals exact ids_of_same

theorem addTypeRef (h : m.Closed) {r : TypeRef} (hids : ∀ x ∈ r.ids, m.Has x) :
    (m.addTypeRef r).2.Closed := by
  have hw := (Grows.addTypeRef m r).within
  refine h.grow hw ids_of_same ids_of_same ids_of_same
    (ids_of_append fun x hx ↦ (hids x hx).mono hw) ids_of_same ids_of_same

theorem addMemberRef (h : m.Closed) {r : MemberRef} (hids : ∀ x ∈ r.ids, m.Has x) :
    (m.addMemberRef r).2.Closed := by
  have hw := (Grows.addMemberRef m r).within
  refine h.grow hw ids_of_same ids_of_same ids_of_same ids_of_same
    (ids_of_append fun x hx ↦ (hids x hx).mono hw) ids_of_same

theorem addExportedType (h : m.Closed) {e : ExportedType} (hids : ∀ x ∈ e.ids, m.Has x) :
    (m.addExportedType e).2.Closed := by
  have hw := (Grows.addExportedType m e).within
  refine h.grow hw ids_of_same ids_of_same ids_of_same ids_of_same ids_of_same
    (ids_of_append fun x hx ↦ (hids x hx).mono hw)

theorem of_assemblyRefs (h : m.Closed) {rs : List AssemblyRef}
    (hle : m.assemblyRefs.length ≤ rs.length) :
    ({ m with assemblyRefs := rs } : Module).Closed := by
  refine h.grow (fun k ↦ ?_) ids_of_same ids_of_same ids_of_same ids_of_same ids_of_same
    ids_of_same
  cases k with
  | assemblyRef => exact hle
  | type | method | field | typeRef | memberRef | exportedType => exact Nat.le_refl _

end Closed

end Module

/-! ## References are added once

A reference is looked for before it is added. So no reference is there twice, and asking again for
the same one has the same answer. External modules are compared by name alone, and their version
may be raised. -/

namespace Target

variable {t : Target}

/-- No two type references are equal, and no two external modules have the same name. -/
structure Interned (t : Target) : Prop where
  typeRefs : t.typeRefs.Nodup
  assemblyRefs : t.assemblyRefs.Pairwise fun a b ↦ Text.sameName a.name b.name = false

/-- An entry provides what a reference to a module asks for: it has the name, in any case, and no
lower version. -/
structure Provides (t : Target) (r : AssemblyRef) (a : AssemblyRefId) : Prop where
  index_lt : a.index < t.assemblyRefs.length
  name : Text.sameName (t.assemblyRef a).name r.name = true
  version : r.version ≤ (t.assemblyRef a).version

theorem internTypeRef_cases (t : Target) (r : TypeRef) :
    (t.internTypeRef r).2 = t ∧ (t.internTypeRef r).1.index < t.typeRefs.length
        ∧ t.typeRef (t.internTypeRef r).1 = r
      ∨ r ∉ t.typeRefs ∧ t.internTypeRef r = t.addTypeRef r := by
  unfold internTypeRef
  cases hi : t.typeRefs.findIdx? (· = r) with
  | some i =>
    obtain ⟨hlt, hr, -⟩ := List.findIdx?_eq_some_iff_getElem.mp hi
    refine .inl ⟨rfl, hlt, ?_⟩
    rw [Module.typeRef, List.getD_eq_getElem _ _ hlt]
    exact of_decide_eq_true hr
  | none =>
    refine .inr ⟨fun hmem ↦ ?_, rfl⟩
    simpa using List.findIdx?_eq_none_iff.mp hi r hmem

theorem index_internTypeRef (t : Target) (r : TypeRef) :
    (t.internTypeRef r).1.index < (t.internTypeRef r).2.typeRefs.length := by
  rcases t.internTypeRef_cases r with ⟨h, hlt, -⟩ | ⟨-, h⟩
  · rwa [h]
  · simp [h, Module.addTypeRef]

theorem typeRef_internTypeRef (t : Target) (r : TypeRef) :
    (t.internTypeRef r).2.typeRef (t.internTypeRef r).1 = r := by
  rcases t.internTypeRef_cases r with ⟨h, -, hr⟩ | ⟨-, h⟩
  · rwa [h]
  · rw [h, Module.addTypeRef, Module.typeRef_append, if_pos rfl]

theorem grows_internTypeRef (t : Target) (r : TypeRef) :
    Module.Grows t (t.internTypeRef r).2 := by
  rcases t.internTypeRef_cases r with ⟨h, -⟩ | ⟨-, h⟩
  · rw [h]
    exact .refl t
  · rw [h]
    exact .addTypeRef t r

theorem internMemberRef_cases (t : Target) (r : MemberRef) :
    (t.internMemberRef r).2 = t ∧ (t.internMemberRef r).1.index < t.memberRefs.length
        ∧ t.memberRef (t.internMemberRef r).1 = r
      ∨ r ∉ t.memberRefs ∧ t.internMemberRef r = t.addMemberRef r := by
  unfold internMemberRef
  cases hi : t.memberRefs.findIdx? (· = r) with
  | some i =>
    obtain ⟨hlt, hr, -⟩ := List.findIdx?_eq_some_iff_getElem.mp hi
    refine .inl ⟨rfl, hlt, ?_⟩
    rw [Module.memberRef, List.getD_eq_getElem _ _ hlt]
    exact of_decide_eq_true hr
  | none =>
    refine .inr ⟨fun hmem ↦ ?_, rfl⟩
    simpa using List.findIdx?_eq_none_iff.mp hi r hmem

theorem index_internMemberRef (t : Target) (r : MemberRef) :
    (t.internMemberRef r).1.index < (t.internMemberRef r).2.memberRefs.length := by
  rcases t.internMemberRef_cases r with ⟨h, hlt, -⟩ | ⟨-, h⟩
  · rwa [h]
  · simp [h, Module.addMemberRef]

theorem memberRef_internMemberRef (t : Target) (r : MemberRef) :
    (t.internMemberRef r).2.memberRef (t.internMemberRef r).1 = r := by
  rcases t.internMemberRef_cases r with ⟨h, -, hr⟩ | ⟨-, h⟩
  · rwa [h]
  · rw [h, Module.addMemberRef, Module.memberRef_append, if_pos rfl]

theorem grows_internMemberRef (t : Target) (r : MemberRef) :
    Module.Grows t (t.internMemberRef r).2 := by
  rcases t.internMemberRef_cases r with ⟨h, -⟩ | ⟨-, h⟩
  · rw [h]
    exact .refl t
  · rw [h]
    exact .addMemberRef t r

/-- Referring to an external module raises the version of the entry of its name, or adds one. -/
theorem referAssembly_cases (t : Target) (r : AssemblyRef) :
    (∃ i : Nat, ∃ hi : i < t.assemblyRefs.length,
        Text.sameName t.assemblyRefs[i].name r.name = true
        ∧ t.referAssembly r = (⟨i⟩, { t with assemblyRefs := t.assemblyRefs.modify i fun known ↦
            { known with version := known.version.highest r.version } }))
      ∨ (∀ a ∈ t.assemblyRefs, Text.sameName a.name r.name = false)
        ∧ t.referAssembly r = t.addAssemblyRef r := by
  unfold referAssembly Module.findAssemblyRef?
  cases hi : t.assemblyRefs.findIdx? fun a ↦ Text.sameName a.name r.name with
  | some i =>
    obtain ⟨hlt, hname, -⟩ := List.findIdx?_eq_some_iff_getElem.mp hi
    exact .inl ⟨i, hlt, hname, rfl⟩
  | none => exact .inr ⟨List.findIdx?_eq_none_iff.mp hi, rfl⟩

theorem map_name_raise (rs : List AssemblyRef) (i : Nat) (v : Version) :
    (rs.modify i fun known ↦ { known with version := known.version.highest v }).map AssemblyRef.name
      = rs.map AssemblyRef.name := by
  refine List.ext_getElem (by simp) fun j hj hj' ↦ ?_
  simp only [List.getElem_map, List.getElem_modify]
  split <;> rfl

theorem index_referAssembly (t : Target) (r : AssemblyRef) :
    (t.referAssembly r).1.index < (t.referAssembly r).2.assemblyRefs.length := by
  rcases t.referAssembly_cases r with ⟨i, hi, -, h⟩ | ⟨-, h⟩
  · simpa [h] using hi
  · simp [h, Module.addAssemblyRef]

theorem referAssembly_tables (t : Target) (r : AssemblyRef) :
    (t.referAssembly r).2 = { t with assemblyRefs := (t.referAssembly r).2.assemblyRefs } := by
  rcases t.referAssembly_cases r with ⟨i, -, -, h⟩ | ⟨-, h⟩ <;> rw [h]
  rfl

/-- An entry that is there keeps its name, and so its version unless it is the one that is asked
for. -/
theorem assemblyRef_referAssembly_of_lt (t : Target) (r : AssemblyRef) {a : AssemblyRefId}
    (ha : a.index < t.assemblyRefs.length) :
    (t.referAssembly r).2.assemblyRef a = if a = (t.referAssembly r).1 then
        { t.assemblyRef a with version := (t.assemblyRef a).version.highest r.version }
      else t.assemblyRef a := by
  rcases t.referAssembly_cases r with ⟨i, hi, -, h⟩ | ⟨-, h⟩
  · rw [h, Module.assemblyRef, Module.assemblyRef, List.getD_eq_getElem _ _ ha,
      List.getD_eq_getElem _ _ (by simpa using ha), List.getElem_modify]
    obtain ⟨a⟩ := a
    simp only [AssemblyRefId.mk.injEq, eq_comm]
  · have hne : a ≠ (t.addAssemblyRef r).1 := fun he ↦ by simp [he, Module.addAssemblyRef] at ha
    rw [h, if_neg hne]
    exact List.getD_append _ _ _ _ ha

theorem grows_referAssembly (t : Target) (r : AssemblyRef) :
    Module.Grows t (t.referAssembly r).2 := by
  have hlen : t.assemblyRefs.length ≤ (t.referAssembly r).2.assemblyRefs.length := by
    rcases t.referAssembly_cases r with ⟨i, -, -, h⟩ | ⟨-, h⟩ <;> simp [h, Module.addAssemblyRef]
  have hentry := fun {a} ↦ t.assemblyRef_referAssembly_of_lt r (a := a)
  rw [referAssembly_tables]
  refine .of_assemblyRefs hlen (fun {a} ha ↦ ?_) fun {a} ha ↦ ?_
  · refine (congrArg AssemblyRef.name (hentry ha)).trans ?_
    split <;> rfl
  · refine Version.le_trans ?_ (Nat.le_of_eq (congrArg (·.version.weight) (hentry ha)).symm)
    split
    · exact Version.le_highest_left _ _
    · exact Version.le_refl _

/-- The entry has the name that was asked for, without regard to ASCII case, and no lower
version. -/
theorem provides_referAssembly (t : Target) (r : AssemblyRef) :
    (t.referAssembly r).2.Provides r (t.referAssembly r).1 := by
  suffices hentry : Text.sameName ((t.referAssembly r).2.assemblyRef (t.referAssembly r).1).name
      r.name = true ∧ r.version ≤ ((t.referAssembly r).2.assemblyRef (t.referAssembly r).1).version
    from ⟨t.index_referAssembly r, hentry.1, hentry.2⟩
  rcases t.referAssembly_cases r with ⟨i, hi, hname, h⟩ | ⟨-, h⟩
  · have hentry := t.assemblyRef_referAssembly_of_lt r (a := ⟨i⟩) hi
    rw [h, if_pos rfl] at hentry
    rw [h, hentry]
    refine ⟨?_, Version.le_highest_right _ _⟩
    rw [Module.assemblyRef, List.getD_eq_getElem _ _ hi]
    exact hname
  · have hentry : (t.addAssemblyRef r).2.assemblyRef (t.addAssemblyRef r).1 = r := by
      simp [Module.addAssemblyRef, Module.assemblyRef]
    rw [h, hentry]
    exact ⟨Text.sameName_iff.mpr rfl, Version.le_refl _⟩

theorem Provides.mono {t t' : Target} {r : AssemblyRef} {a : AssemblyRefId} (h : t.Provides r a)
    (ht : Module.Grows t t') : t'.Provides r a where
  index_lt := Nat.lt_of_lt_of_le h.index_lt (ht.within .assemblyRef)
  name := by
    rw [ht.assembly h.index_lt]
    exact h.name
  version := Version.le_trans h.version (ht.version h.index_lt)

/-! ## References keep a module linked and closed -/

theorem linked_internTypeRef (h : Module.Linked t) {r : TypeRef} (hids : ∀ x ∈ r.ids, t.Has x) :
    Module.Linked (t.internTypeRef r).2 := by
  rcases t.internTypeRef_cases r with ⟨heq, -⟩ | ⟨-, heq⟩ <;> rw [heq]
  · exact h
  · refine h.addTypeRef fun o ho ↦ hids (.typeRef, o.index) ?_
    simp [TypeRef.ids, ho]

theorem closed_internTypeRef (h : Module.Closed t) {r : TypeRef} (hids : ∀ x ∈ r.ids, t.Has x) :
    Module.Closed (t.internTypeRef r).2 := by
  rcases t.internTypeRef_cases r with ⟨heq, -⟩ | ⟨-, heq⟩ <;> rw [heq]
  · exact h
  · exact h.addTypeRef hids

theorem linked_internMemberRef (h : Module.Linked t) (r : MemberRef) :
    Module.Linked (t.internMemberRef r).2 := by
  rcases t.internMemberRef_cases r with ⟨heq, -⟩ | ⟨-, heq⟩ <;> rw [heq]
  · exact h
  · exact h.congr rfl rfl rfl rfl

theorem closed_internMemberRef (h : Module.Closed t) {r : MemberRef}
    (hids : ∀ x ∈ r.ids, t.Has x) : Module.Closed (t.internMemberRef r).2 := by
  rcases t.internMemberRef_cases r with ⟨heq, -⟩ | ⟨-, heq⟩ <;> rw [heq]
  · exact h
  · exact h.addMemberRef hids

theorem linked_referAssembly (h : Module.Linked t) (r : AssemblyRef) :
    Module.Linked (t.referAssembly r).2 := by
  rw [referAssembly_tables]
  exact h.congr rfl rfl rfl rfl

theorem closed_referAssembly (h : Module.Closed t) (r : AssemblyRef) :
    Module.Closed (t.referAssembly r).2 := by
  rw [referAssembly_tables]
  exact h.of_assemblyRefs ((t.grows_referAssembly r).within .assemblyRef)

namespace Interned

theorem congr {t' : Target} (h : t.Interned) (hr : t'.typeRefs = t.typeRefs)
    (ha : t'.assemblyRefs = t.assemblyRefs) : t'.Interned :=
  ⟨hr ▸ h.typeRefs, ha ▸ h.assemblyRefs⟩

theorem internTypeRef (h : t.Interned) (r : TypeRef) : (t.internTypeRef r).2.Interned := by
  rcases t.internTypeRef_cases r with ⟨heq, -⟩ | ⟨hnot, heq⟩
  · rwa [heq]
  · rw [heq]
    refine ⟨List.nodup_append.mpr ⟨h.typeRefs, by simp, ?_⟩, h.assemblyRefs⟩
    rintro a ha b hb rfl
    exact hnot (List.mem_singleton.mp hb ▸ ha)

theorem internMemberRef (h : t.Interned) (r : MemberRef) : (t.internMemberRef r).2.Interned := by
  rcases t.internMemberRef_cases r with ⟨heq, -⟩ | ⟨-, heq⟩ <;> rw [heq]
  · exact h
  · exact h.congr rfl rfl

theorem referAssembly (h : t.Interned) (r : AssemblyRef) : (t.referAssembly r).2.Interned := by
  refine ⟨by rw [referAssembly_tables]; exact h.typeRefs, ?_⟩
  rcases t.referAssembly_cases r with ⟨i, -, -, heq⟩ | ⟨hnone, heq⟩
  · have hpairs : (t.assemblyRefs.map AssemblyRef.name).Pairwise
        fun x y ↦ Text.sameName x y = false := List.pairwise_map.mpr h.assemblyRefs
    rw [← map_name_raise _ i r.version] at hpairs
    rw [heq]
    exact List.pairwise_map.mp hpairs
  · rw [heq]
    refine List.pairwise_append.mpr ⟨h.assemblyRefs, by simp, fun a ha b hb ↦ ?_⟩
    rw [List.mem_singleton.mp hb]
    exact hnone a ha

theorem eq_of_typeRef (h : t.Interned) {r r' : TypeRefId} (hr : r.index < t.typeRefs.length)
    (hr' : r'.index < t.typeRefs.length) (heq : t.typeRef r = t.typeRef r') : r = r' := by
  rw [Module.typeRef, Module.typeRef, List.getD_eq_getElem _ _ hr,
    List.getD_eq_getElem _ _ hr'] at heq
  obtain ⟨i⟩ := r
  obtain ⟨j⟩ := r'
  exact congrArg TypeRefId.mk (h.typeRefs.getElem_inj_iff.mp heq)

theorem eq_of_sameName (h : t.Interned) {a a' : AssemblyRefId}
    (ha : a.index < t.assemblyRefs.length) (ha' : a'.index < t.assemblyRefs.length)
    (hname : Text.sameName (t.assemblyRef a).name (t.assemblyRef a').name = true) : a = a' := by
  rw [Module.assemblyRef, Module.assemblyRef, List.getD_eq_getElem _ _ ha,
    List.getD_eq_getElem _ _ ha'] at hname
  have hpairs := List.pairwise_iff_getElem.mp h.assemblyRefs
  obtain ⟨i⟩ := a
  obtain ⟨j⟩ := a'
  rcases Nat.lt_trichotomy i j with hlt | heq | hlt
  · simp [hpairs _ _ ha ha' hlt] at hname
  · exact congrArg AssemblyRefId.mk heq
  · rw [Text.sameName_iff, eq_comm, ← Text.sameName_iff, hpairs _ _ ha' ha hlt] at hname
    cases hname

end Interned

end Target

end ModuleLinker
