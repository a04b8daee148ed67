import Mathlib.Data.List.Infix
import ModuleLinker.Image.Construction
import ModuleLinker.Proofs.WellFormed

/-!
# Modules built step by step

A module that is built from an empty one by steps that name only what earlier steps have answered
is well formed. Nothing has to be checked at the end: every step appends to a table, and enters a
type or a member in the list of its owner at the same time.

What an id denotes never changes afterwards. A step leaves every table as it was and adds to its
end; of a type that is there only the lists grow. So each answer can be read off the finished
module, and the steps that look before they add find in it what they have found before.
-/

namespace ModuleLinker

/-! ## Runs of steps

A run is a list of steps, taken one after the other. What a step may be given are the answers of
the steps before it, so the module and the answers are built together. -/

/-- The ids that a step is given. -/
def BuildStep.ids : BuildStep → List (TableKind × Nat)
  | .type _ _ _ | .moduleType | .assemblyRef _ _ | .typeRef _ _ _ | .forward _ _ _ => []
  | .nestedType outer _ _ => [(.type, outer.index)]
  | .initializer instructions => instructions.flatMap fun i ↦ i.operand.ids
  | .method owner _ params ret instructions =>
    (.type, owner.index) :: signatureIds params ret
      ++ (instructions.getD []).flatMap fun i ↦ i.operand.ids
  | .field owner _ fieldType => (.type, owner.index) :: fieldType.ids
  | .methodRef parent _ params ret => parent.ids ++ signatureIds params ret
  | .fieldRef parent _ fieldType => parent.ids ++ fieldType.ids
  | .forwardNested outer _ => [(.exportedType, outer.index)]

/-- Whether a step answers with an entry of its own; the others look first for one that is there. -/
def BuildStep.adds : BuildStep → Bool
  | .moduleType | .assemblyRef _ _ => false
  | _ => true

/-- The position that an answer names. -/
def Built.site : Built → TableKind × Nat
  | .type id => (.type, id.index)
  | .method id => (.method, id.index)
  | .field id => (.field, id.index)
  | .assemblyRef id => (.assemblyRef, id.index)
  | .typeRef id => (.typeRef, id.index)
  | .memberRef id => (.memberRef, id.index)
  | .export id => (.exportedType, id.index)

/-- A type without the lists of what it holds. -/
def TypeDef.header (d : TypeDef) : TypeDef := { d with nested := [], fields := [], methods := [] }

namespace Module

/-- Take steps one after the other: their answers, in order, and the module they lead to. -/
def buildAll (m : Module) (steps : List BuildStep) : List Built × Module :=
  steps.foldl (fun (answers, m) s ↦ let (answer, m) := m.build s; (answers ++ [answer], m)) ([], m)

/-- Every id that a step is given is what an earlier step has answered. -/
def UsesEarlier (m : Module) (steps : List BuildStep) : Prop :=
  ∀ i (h : i < steps.length), ∀ x ∈ steps[i].ids, x ∈ (m.buildAll (steps.take i)).1.map Built.site

instance (m : Module) (steps : List BuildStep) : Decidable (m.UsesEarlier steps) :=
  inferInstanceAs (Decidable (∀ i (h : i < steps.length), ∀ x ∈ steps[i].ids,
    x ∈ (m.buildAll (steps.take i)).1.map Built.site))

/-- The answer denotes the entry that the step asks for. -/
def Denotes (m : Module) (s : BuildStep) (r : Built) : Prop :=
  match s with
  | .type nspace name visibility => ∃ id, r = .type id
      ∧ (m.types.map TypeDef.header)[id.index]? = some { nspace, name, visibility }
  | .nestedType outer name visibility => ∃ id, r = .type id
      ∧ (m.types.map TypeDef.header)[id.index]?
        = some { name, visibility, declaring := some outer }
  | .moduleType => ∃ id, r = .type id ∧ m.moduleType? = some id
  | .initializer instructions => ∃ id owner, r = .method id ∧ m.moduleType? = some owner
      ∧ m.methods[id.index]? = some {
        name := initializerName, access := .private, isStatic := true
        body := some { instructions }, declaring := owner }
  | .method owner name params ret instructions => ∃ id, r = .method id
      ∧ m.methods[id.index]? = some {
        name, access := .public, isStatic := true, params, ret
        body := instructions.map fun is ↦ { instructions := is }, declaring := owner }
  | .field owner name fieldType => ∃ id, r = .field id
      ∧ m.fields[id.index]? = some {
        name, access := .public, isStatic := true, fieldType, declaring := owner }
  | .assemblyRef name _ => ∃ id, r = .assemblyRef id ∧ m.findAssemblyRef? name = some id
  | .typeRef assembly nspace name => ∃ id a, r = .typeRef id ∧ m.findAssemblyRef? assembly = some a
      ∧ m.typeRefs[id.index]? = some { scope := .assembly a, nspace, name }
  | .methodRef parent name params ret => ∃ id, r = .memberRef id
      ∧ m.memberRefs[id.index]? = some { parent, name, kind := .method params ret }
  | .fieldRef parent name type => ∃ id, r = .memberRef id
      ∧ m.memberRefs[id.index]? = some { parent, name, kind := .field type }
  | .forward nspace name assembly => ∃ id a, r = .export id ∧ m.findAssemblyRef? assembly = some a
      ∧ m.exportedTypes[id.index]? = some {
        nspace, name, implementation := .assembly a, isForwarder := true }
  | .forwardNested outer name => ∃ id, r = .export id
      ∧ m.exportedTypes[id.index]? = some {
        nspace := "", name, implementation := .declaring outer }

/-- Every table of the one module is a beginning of that of the other; types may hold more. -/
structure Extends (m m' : Module) : Prop where
  types : m.types.map TypeDef.header <+: m'.types.map TypeDef.header
  methods : m.methods <+: m'.methods
  fields : m.fields <+: m'.fields
  typeRefs : m.typeRefs <+: m'.typeRefs
  memberRefs : m.memberRefs <+: m'.memberRefs
  assemblyRefs : m.assemblyRefs <+: m'.assemblyRefs
  exportedTypes : m.exportedTypes <+: m'.exportedTypes

/-- What is kept from step to step: both directions of every link agree, no id is astray, and no two
referenced modules have the same name. -/
structure Tidy (m : Module) : Prop where
  linked : m.Linked
  closed : m.Closed
  assemblyRefs : m.assemblyRefs.Pairwise fun a b ↦ Text.sameName a.name b.name = false

variable {m m' m'' : Module}

@[simp] theorem buildAll_nil (m : Module) : m.buildAll [] = ([], m) := rfl

theorem buildAll_concat (m : Module) (steps : List BuildStep) (s : BuildStep) :
    m.buildAll (steps ++ [s]) = ((m.buildAll steps).1 ++ [((m.buildAll steps).2.build s).1],
      ((m.buildAll steps).2.build s).2) := by
  rw [buildAll, List.foldl_append]
  rfl

theorem length_buildAll (m : Module) (steps : List BuildStep) :
    (m.buildAll steps).1.length = steps.length := by
  induction steps using List.reverseRecOn with
  | nil => rfl
  | append_singleton steps s ih => simp [buildAll_concat, ih]

theorem exists_step_of_answer {steps : List BuildStep} {r : Built}
    (hr : r ∈ (m.buildAll steps).1) : ∃ s, (s, r) ∈ steps.zip (m.buildAll steps).1 := by
  rw [← List.map_snd_zip (Nat.le_of_eq (m.length_buildAll steps))] at hr
  obtain ⟨⟨s, r⟩, hmem, rfl⟩ := List.mem_map.mp hr
  exact ⟨s, hmem⟩

/-! ## Tables that only grow

A type that is there may get more to hold but keeps its header, and all other entries stay as they
are. It is enough to see this of the single operations: a step is one of them, and a run is made
of steps. -/

namespace Extends

theorem refl (m : Module) : m.Extends m :=
  ⟨List.prefix_rfl, List.prefix_rfl, List.prefix_rfl, List.prefix_rfl, List.prefix_rfl,
    List.prefix_rfl, List.prefix_rfl⟩

theorem trans (h : m.Extends m') (h' : m'.Extends m'') : m.Extends m'' where
  types := h.types.trans h'.types
  methods := h.methods.trans h'.methods
  fields := h.fields.trans h'.fields
  typeRefs := h.typeRefs.trans h'.typeRefs
  memberRefs := h.memberRefs.trans h'.memberRefs
  assemblyRefs := h.assemblyRefs.trans h'.assemblyRefs
  exportedTypes := h.exportedTypes.trans h'.exportedTypes

theorem within (h : m.Extends m') : m.Within m' := by
  intro k
  cases k with
  | type => simpa [tableSize] using h.types.length_le
  | method => exact h.methods.length_le
  | field => exact h.fields.length_le
  | typeRef => exact h.typeRefs.length_le
  | memberRef => exact h.memberRefs.length_le
  | assemblyRef => exact h.assemblyRefs.length_le
  | exportedType => exact h.exportedTypes.length_le

end Extends

theorem headers_updateType (m : Module) (id : TypeId) {f : TypeDef → TypeDef}
    (hf : ∀ d, (f d).header = d.header) :
    (m.updateType id f).types.map TypeDef.header = m.types.map TypeDef.header := by
  refine List.ext_getElem (by simp) fun j hj hj' ↦ ?_
  simp only [updateType, List.getElem_map, List.getElem_modify]
  split
  · exact hf _
  · rfl

theorem headers_addType (m : Module) (t : TypeDef) :
    (m.addType t).2.types.map TypeDef.header = m.types.map TypeDef.header ++ [t.header] := by
  unfold addType
  split
  · simp only [List.map_append, List.map_singleton]
    rw [headers_updateType]
    exact fun _ ↦ rfl
  · simp

theorem extends_addType (m : Module) (t : TypeDef) : m.Extends (m.addType t).2 := by
  rw [addType_tables]
  refine { Extends.refl m with types := ?_ }
  rw [headers_addType]
  exact List.prefix_append _ _

theorem headers_addMethod (m : Module) (d : MethodDef) :
    (m.addMethod d).2.types.map TypeDef.header = m.types.map TypeDef.header :=
  headers_updateType { m with methods := m.methods ++ [d] } d.declaring fun _ ↦ rfl

theorem headers_addField (m : Module) (d : FieldDef) :
    (m.addField d).2.types.map TypeDef.header = m.types.map TypeDef.header :=
  headers_updateType { m with fields := m.fields ++ [d] } d.declaring fun _ ↦ rfl

theorem extends_addMethod (m : Module) (d : MethodDef) : m.Extends (m.addMethod d).2 := by
  refine { Extends.refl m with types := ?_, methods := List.prefix_append _ _ }
  rw [headers_addMethod]

theorem extends_addField (m : Module) (d : FieldDef) : m.Extends (m.addField d).2 := by
  refine { Extends.refl m with types := ?_, fields := List.prefix_append _ _ }
  rw [headers_addField]

theorem extends_addTypeRef (m : Module) (r : TypeRef) : m.Extends (m.addTypeRef r).2 :=
  { Extends.refl m with typeRefs := List.prefix_append _ _ }

theorem extends_addMemberRef (m : Module) (r : MemberRef) : m.Extends (m.addMemberRef r).2 :=
  { Extends.refl m with memberRefs := List.prefix_append _ _ }

theorem extends_addAssemblyRef (m : Module) (r : AssemblyRef) : m.Extends (m.addAssemblyRef r).2 :=
  { Extends.refl m with assemblyRefs := List.prefix_append _ _ }

theorem extends_addExportedType (m : Module) (e : ExportedType) :
    m.Extends (m.addExportedType e).2 :=
  { Extends.refl m with exportedTypes := List.prefix_append _ _ }

theorem extends_withModuleType (m : Module) : m.Extends m.withModuleType.2 := by
  unfold withModuleType
  split
  · exact .refl m
  · exact m.extends_addType _

theorem extends_withAssemblyRef (m : Module) (name : String) (version : Version) :
    m.Extends (m.withAssemblyRef name version).2 := by
  unfold withAssemblyRef
  split
  · exact .refl m
  · exact m.extends_addAssemblyRef _

theorem extends_build (m : Module) (s : BuildStep) : m.Extends (m.build s).2 := by
  cases s with
  | type nspace name visibility => exact m.extends_addType { nspace, name, visibility }
  | nestedType outer name visibility =>
    exact m.extends_addType { name, visibility, declaring := some outer }
  | moduleType => exact m.extends_withModuleType
  | initializer => exact m.extends_withModuleType.trans (extends_addMethod _ _)
  | method => exact m.extends_addMethod _
  | field => exact m.extends_addField _
  | assemblyRef => exact m.extends_withAssemblyRef _ _
  | typeRef => exact (m.extends_withAssemblyRef _ _).trans (extends_addTypeRef _ _)
  | methodRef | fieldRef => exact m.extends_addMemberRef _
  | forward => exact (m.extends_withAssemblyRef _ _).trans (extends_addExportedType _ _)
  | forwardNested => exact m.extends_addExportedType _

theorem extends_buildAll_append (m : Module) (before after : List BuildStep) :
    (m.buildAll before).2.Extends (m.buildAll (before ++ after)).2
      ∧ (m.buildAll before).1 <+: (m.buildAll (before ++ after)).1 := by
  induction after using List.reverseRecOn with
  | nil =>
    rw [List.append_nil]
    exact ⟨.refl _, List.prefix_rfl⟩
  | append_singleton after s ih =>
    rw [← List.append_assoc, buildAll_concat]
    exact ⟨ih.1.trans (extends_build _ s), ih.2.trans (List.prefix_append _ _)⟩

/-! ## What is looked for before it is added

The module-level type and the references to modules are looked for before they are added. The
first entry that is accepted stays the first when the table gets longer, so a later step is
answered with the same id. -/

private theorem find?_range_getD {α : Type} (p : α → Bool) (l : List α) (d : α) :
    (List.range l.length).find? (fun i ↦ p (l.getD i d)) = l.findIdx? p := by
  ext i
  rw [List.find?_range_eq_some, List.findIdx?_eq_some_iff_getElem]
  constructor
  · rintro ⟨hp, hi, hfirst⟩
    have hlt := List.mem_range.mp hi
    refine ⟨hlt, by rwa [List.getD_eq_getElem _ _ hlt] at hp, fun j hj ↦ ?_⟩
    have hj' := hfirst j hj
    rw [List.getD_eq_getElem _ _ (hj.trans hlt)] at hj'
    simpa using hj'
  · rintro ⟨hlt, hp, hfirst⟩
    refine ⟨by rwa [List.getD_eq_getElem _ _ hlt], List.mem_range.mpr hlt, fun j hj ↦ ?_⟩
    rw [List.getD_eq_getElem _ _ (hj.trans hlt)]
    simpa using hfirst j hj

theorem moduleType?_eq_findIdx? (m : Module) : m.moduleType?
    = ((m.types.map TypeDef.header).findIdx? TypeDef.isModuleType).map TypeId.mk := by
  have hpred : (fun id ↦ decide ((m.typeDef id).declaring.isNone = true
      ∧ (m.typeDef id).isModuleType = true)) = fun id ↦ (m.typeDef id).isModuleType := by
    funext id
    cases hd : (m.typeDef id).declaring <;> simp [TypeDef.isModuleType, hd]
  rw [moduleType?, topLevelTypes, List.find?_filter, hpred, typeIds, List.find?_map,
    List.findIdx?_map]
  exact congrArg _ (find?_range_getD TypeDef.isModuleType m.types default)

private theorem findIdx?_of_initial {α : Type} {p : α → Bool} {l l' : List α} (h : l <+: l')
    {i : Nat} (hi : l.findIdx? p = some i) : l'.findIdx? p = some i := by
  obtain ⟨more, rfl⟩ := h
  rw [List.findIdx?_append, hi]
  rfl

theorem Extends.moduleType? (h : m.Extends m') {id : TypeId} (hid : m.moduleType? = some id) :
    m'.moduleType? = some id := by
  rw [moduleType?_eq_findIdx?] at hid ⊢
  obtain ⟨i, hi, rfl⟩ := Option.map_eq_some_iff.mp hid
  rw [findIdx?_of_initial h.types hi]
  rfl

theorem Extends.findAssemblyRef? (h : m.Extends m') {name : String} {id : AssemblyRefId}
    (hid : m.findAssemblyRef? name = some id) : m'.findAssemblyRef? name = some id := by
  obtain ⟨i, hi, rfl⟩ := Option.map_eq_some_iff.mp hid
  rw [Module.findAssemblyRef?, findIdx?_of_initial h.assemblyRefs hi]
  rfl

/-- The module-level type is there afterwards, whether it has been found or added. -/
theorem moduleType?_withModuleType (m : Module) :
    m.withModuleType.2.moduleType? = some m.withModuleType.1 := by
  unfold withModuleType
  split
  · next id hid => exact hid
  · next hnone =>
    rw [moduleType?_eq_findIdx?] at hnone
    rw [moduleType?_eq_findIdx?, headers_addType, List.findIdx?_append,
      Option.map_eq_none_iff.mp hnone]
    simp [TypeDef.header, TypeDef.isModuleType]

theorem findAssemblyRef?_withAssemblyRef (m : Module) (name : String) (version : Version) :
    (m.withAssemblyRef name version).2.findAssemblyRef? name
      = some (m.withAssemblyRef name version).1 := by
  unfold withAssemblyRef
  split
  · next id hid => exact hid
  · next hnone =>
    have hself : Text.sameName name name = true := Text.sameName_iff.mpr rfl
    simp only [findAssemblyRef?, Option.map_eq_none_iff] at hnone
    simp [findAssemblyRef?, addAssemblyRef, List.findIdx?_append, hnone, hself]

theorem lt_of_moduleType? {id : TypeId} (h : m.moduleType? = some id) :
    id.index < m.types.length :=
  mem_typeIds.mp (List.mem_of_mem_filter (List.mem_of_find?_eq_some h))

theorem lt_of_findAssemblyRef? {name : String} {id : AssemblyRefId}
    (h : m.findAssemblyRef? name = some id) : id.index < m.assemblyRefs.length := by
  obtain ⟨i, hi, rfl⟩ := Option.map_eq_some_iff.mp h
  obtain ⟨hlt, -⟩ := List.findIdx?_eq_some_iff_getElem.mp hi
  exact hlt

/-! ## What the answers denote

An answer that denotes an entry goes on doing so, because tables are only extended. So what each
step asks for can be read off the module at the end. -/

private theorem getElem?_of_initial {α : Type} {l l' : List α} (h : l <+: l') {i : Nat} {a : α}
    (hi : l[i]? = some a) : l'[i]? = some a := by
  obtain ⟨more, rfl⟩ := h
  obtain ⟨hlt, -⟩ := List.getElem?_eq_some_iff.mp hi
  rwa [List.getElem?_append_left hlt]

namespace Denotes

variable {s : BuildStep} {r : Built}

theorem mono (h : m.Denotes s r) (hm : m.Extends m') : m'.Denotes s r := by
  cases s with
  | type | nestedType =>
    obtain ⟨id, rfl, hid⟩ := h
    exact ⟨id, rfl, getElem?_of_initial hm.types hid⟩
  | moduleType =>
    obtain ⟨id, rfl, hid⟩ := h
    exact ⟨id, rfl, hm.moduleType? hid⟩
  | initializer =>
    obtain ⟨id, owner, rfl, howner, hid⟩ := h
    exact ⟨id, owner, rfl, hm.moduleType? howner, getElem?_of_initial hm.methods hid⟩
  | method =>
    obtain ⟨id, rfl, hid⟩ := h
    exact ⟨id, rfl, getElem?_of_initial hm.methods hid⟩
  | field =>
    obtain ⟨id, rfl, hid⟩ := h
    exact ⟨id, rfl, getElem?_of_initial hm.fields hid⟩
  | assemblyRef =>
    obtain ⟨id, rfl, hid⟩ := h
    exact ⟨id, rfl, hm.findAssemblyRef? hid⟩
  | typeRef =>
    obtain ⟨id, a, rfl, ha, hid⟩ := h
    exact ⟨id, a, rfl, hm.findAssemblyRef? ha, getElem?_of_initial hm.typeRefs hid⟩
  | methodRef | fieldRef =>
    obtain ⟨id, rfl, hid⟩ := h
    exact ⟨id, rfl, getElem?_of_initial hm.memberRefs hid⟩
  | forward =>
    obtain ⟨id, a, rfl, ha, hid⟩ := h
    exact ⟨id, a, rfl, hm.findAssemblyRef? ha, getElem?_of_initial hm.exportedTypes hid⟩
  | forwardNested =>
    obtain ⟨id, rfl, hid⟩ := h
    exact ⟨id, rfl, getElem?_of_initial hm.exportedTypes hid⟩

theorem has (h : m.Denotes s r) : m.Has r.site := by
  have hlt : ∀ {α : Type} {l : List α} {i : Nat} {a : α}, l[i]? = some a → i < l.length :=
    fun hi ↦ (List.getElem?_eq_some_iff.mp hi).1
  cases s with
  | type | nestedType =>
    obtain ⟨id, rfl, hid⟩ := h
    simpa [Has, tableSize, Built.site] using hlt hid
  | moduleType =>
    obtain ⟨id, rfl, hid⟩ := h
    exact lt_of_moduleType? hid
  | initializer =>
    obtain ⟨id, owner, rfl, -, hid⟩ := h
    exact hlt hid
  | assemblyRef =>
    obtain ⟨id, rfl, hid⟩ := h
    exact lt_of_findAssemblyRef? hid
  | typeRef | forward =>
    obtain ⟨id, a, rfl, -, hid⟩ := h
    exact hlt hid
  | method | field | methodRef | fieldRef | forwardNested =>
    obtain ⟨id, rfl, hid⟩ := h
    exact hlt hid

end Denotes

theorem getElem?_headers_addType (m : Module) (t : TypeDef) :
    ((m.addType t).2.types.map TypeDef.header)[m.types.length]? = some t.header := by
  rw [headers_addType]
  simp

/-- The answer of a step denotes what the step asks for. -/
theorem denotes_build (m : Module) (s : BuildStep) : (m.build s).2.Denotes s (m.build s).1 := by
  have hlast : ∀ {α : Type} (l : List α) (a : α), (l ++ [a])[l.length]? = some a :=
    fun l a ↦ by simp
  cases s with
  | type nspace name visibility =>
    exact ⟨_, rfl, m.getElem?_headers_addType { nspace, name, visibility }⟩
  | nestedType outer name visibility =>
    exact ⟨_, rfl, m.getElem?_headers_addType { name, visibility, declaring := some outer }⟩
  | moduleType => exact ⟨_, rfl, m.moduleType?_withModuleType⟩
  | initializer =>
    exact ⟨_, _, rfl, (extends_addMethod _ _).moduleType? m.moduleType?_withModuleType, hlast _ _⟩
  | method | field | methodRef | fieldRef | forwardNested => exact ⟨_, rfl, hlast _ _⟩
  | assemblyRef name version => exact ⟨_, rfl, m.findAssemblyRef?_withAssemblyRef name version⟩
  | typeRef assembly =>
    exact ⟨_, _, rfl, (extends_addTypeRef _ _).findAssemblyRef?
      (m.findAssemblyRef?_withAssemblyRef assembly {}), hlast _ _⟩
  | forward nspace name assembly =>
    exact ⟨_, _, rfl, (extends_addExportedType _ _).findAssemblyRef?
      (m.findAssemblyRef?_withAssemblyRef assembly {}), hlast _ _⟩

/-- In the finished module every answer denotes what its step has asked for. -/
theorem denotes_buildAll (m : Module) (steps : List BuildStep) :
    ∀ e ∈ steps.zip (m.buildAll steps).1, (m.buildAll steps).2.Denotes e.1 e.2 := by
  induction steps using List.reverseRecOn with
  | nil => simp
  | append_singleton steps s ih =>
    rw [buildAll_concat, List.zip_append (m.length_buildAll steps).symm]
    intro e he
    rcases List.mem_append.mp he with he | he
    · exact (ih e he).mono (extends_build _ s)
    · rw [List.zip_cons_cons, List.zip_nil_left, List.mem_singleton] at he
      rw [he]
      exact denotes_build _ s

/-! ## The invariant of building

Every operation keeps a module tidy when the ids that it is given are ids of the module. Answers
of earlier steps are, since they denote entries and tables do not shrink. -/

namespace Tidy

theorem of_empty (name : String) (version : Version) (runtime : String)
    (resources : Option ResourceDirectory) : Tidy { name, version, runtime, resources } :=
  ⟨.of_empty rfl rfl rfl rfl, .of_empty rfl rfl rfl rfl rfl rfl, .nil⟩

theorem addType (h : m.Tidy) (nspace name : String) (visibility : Visibility)
    (declaring : Option TypeId) (hin : ∀ o, declaring = some o → o.index < m.types.length) :
    (m.addType { nspace, name, visibility, declaring }).2.Tidy := by
  refine ⟨h.linked.addType hin rfl rfl rfl, h.closed.addType hin fun x hx ↦ ?_,
    by rw [addType_tables]; exact h.assemblyRefs⟩
  obtain ⟨o, ho, rfl⟩ : ∃ o, declaring = some o ∧ (TableKind.type, o.index) = x := by
    simpa [TypeDef.ids] using hx
  exact Has.mono (x := (.type, o.index)) (hin o ho) (m.extends_addType _).within

theorem addMethod (h : m.Tidy) {d : MethodDef} (hids : ∀ x ∈ d.ids, m.Has x) :
    (m.addMethod d).2.Tidy :=
  ⟨h.linked.addMethod (hids (.type, d.declaring.index) List.mem_cons_self), h.closed.addMethod hids,
    h.assemblyRefs⟩

theorem addField (h : m.Tidy) {d : FieldDef} (hids : ∀ x ∈ d.ids, m.Has x) :
    (m.addField d).2.Tidy :=
  ⟨h.linked.addField (hids (.type, d.declaring.index) List.mem_cons_self), h.closed.addField hids,
    h.assemblyRefs⟩

theorem addTypeRef (h : m.Tidy) {a : AssemblyRefId} (ha : a.index < m.assemblyRefs.length)
    (nspace name : String) : (m.addTypeRef { scope := .assembly a, nspace, name }).2.Tidy := by
  refine ⟨h.linked.addTypeRef fun o ho ↦ ?_, h.closed.addTypeRef fun x hx ↦ ?_, h.assemblyRefs⟩
  · cases ho
  · obtain rfl := List.mem_singleton.mp hx
    exact ha

theorem addMemberRef (h : m.Tidy) {r : MemberRef} (hids : ∀ x ∈ r.ids, m.Has x) :
    (m.addMemberRef r).2.Tidy :=
  ⟨h.linked.congr rfl rfl rfl rfl, h.closed.addMemberRef hids, h.assemblyRefs⟩

theorem addExportedType (h : m.Tidy) {e : ExportedType} (hids : ∀ x ∈ e.ids, m.Has x) :
    (m.addExportedType e).2.Tidy :=
  ⟨h.linked.congr rfl rfl rfl rfl, h.closed.addExportedType hids, h.assemblyRefs⟩

theorem withModuleType (h : m.Tidy) : m.withModuleType.2.Tidy := by
  unfold Module.withModuleType
  split
  · exact h
  · exact h.addType "" moduleTypeName .notPublic none fun o ho ↦ by cases ho

/-- A reference is added only when none has its name. -/
theorem withAssemblyRef (h : m.Tidy) (name : String) (version : Version) :
    (m.withAssemblyRef name version).2.Tidy := by
  unfold Module.withAssemblyRef
  split
  · exact h
  · next hnone =>
    have hnew : ∀ a ∈ m.assemblyRefs, Text.sameName a.name name = false :=
      List.findIdx?_eq_none_iff.mp (Option.map_eq_none_iff.mp hnone)
    refine ⟨h.linked.congr rfl rfl rfl rfl, ?_, ?_⟩
    · exact h.closed.of_assemblyRefs (List.length_append ▸ Nat.le_add_right _ _)
    · refine List.pairwise_append.mpr ⟨h.assemblyRefs, List.pairwise_singleton _ _, ?_⟩
      intro a ha b hb
      rw [List.mem_singleton.mp hb]
      exact hnew a ha

/-- A step that is given ids of the module keeps it in order. -/
theorem build (h : m.Tidy) {s : BuildStep} (hids : ∀ x ∈ s.ids, m.Has x) :
    (m.build s).2.Tidy := by
  cases s with
  | type nspace name visibility =>
    exact h.addType nspace name visibility none fun o ho ↦ by cases ho
  | nestedType outer name visibility =>
    refine h.addType "" name visibility (some outer) fun o ho ↦ ?_
    obtain rfl := Option.some.inj ho
    exact hids _ (List.mem_singleton_self _)
  | moduleType => exact h.withModuleType
  | initializer instructions =>
    refine h.withModuleType.addMethod fun x hx ↦ ?_
    rcases List.mem_cons.mp hx with rfl | hx
    · exact lt_of_moduleType? m.moduleType?_withModuleType
    · exact (hids x (by simpa [signatureIds, Body.ids, BuildStep.ids] using hx)).mono
        m.extends_withModuleType.within
  | method owner name params ret instructions =>
    refine h.addMethod fun x hx ↦ hids x ?_
    cases instructions <;> simpa [MethodDef.ids, BuildStep.ids, Body.ids] using hx
  | field owner name fieldType => exact h.addField hids
  | assemblyRef name version => exact h.withAssemblyRef name version
  | typeRef assembly nspace name =>
    exact (h.withAssemblyRef assembly {}).addTypeRef
      (lt_of_findAssemblyRef? (m.findAssemblyRef?_withAssemblyRef assembly {})) nspace name
  | methodRef parent name params ret => exact h.addMemberRef hids
  | fieldRef parent name fieldType => exact h.addMemberRef hids
  | forward nspace name assembly =>
    refine (h.withAssemblyRef assembly {}).addExportedType fun x hx ↦ ?_
    obtain rfl := List.mem_singleton.mp hx
    exact lt_of_findAssemblyRef? (m.findAssemblyRef?_withAssemblyRef assembly {})
  | forwardNested outer name => exact h.addExportedType hids

/-- So do steps that are given answers of earlier ones. -/
theorem buildAll (h : m.Tidy) {steps : List BuildStep} (hids : m.UsesEarlier steps) :
    (m.buildAll steps).2.Tidy := by
  induction steps using List.reverseRecOn with
  | nil => exact h
  | append_singleton steps s ih =>
    rw [buildAll_concat]
    refine (ih fun i hi x hx ↦ ?_).build fun x hx ↦ ?_
    · have hlt : i < (steps ++ [s]).length := by simp; omega
      have hearlier := hids i hlt x (by rwa [List.getElem_append_left hi])
      rwa [List.take_append_of_le_length (Nat.le_of_lt hi)] at hearlier
    · have hearlier := hids steps.length (by simp) x (by simpa using hx)
      rw [List.take_left] at hearlier
      obtain ⟨r, hr, rfl⟩ := List.mem_map.mp hearlier
      obtain ⟨s', hs'⟩ := exists_step_of_answer hr
      exact (m.denotes_buildAll steps _ hs').has

end Tidy

/-! ## Entries and answers

A step that adds answers with the position behind the last entry, which no earlier step can have
been answered with. The other direction holds as well, but for the module-level type, which a step
may add because it needs it. -/

/-- A step that adds answers with a position that has been free. -/
theorem not_has_build (m : Module) {s : BuildStep} (hs : s.adds = true) :
    ¬m.Has (m.build s).1.site := by
  have hend : ∀ {m' : Module} (k : TableKind), m.Extends m' → ¬m.Has (k, m'.tableSize k) :=
    fun _ hm hhas ↦ Nat.lt_irrefl _ (hhas.mono hm.within)
  cases s with
  | type | nestedType => exact hend .type (.refl m)
  | moduleType | assemblyRef => cases hs
  | initializer => exact hend .method m.extends_withModuleType
  | method => exact hend .method (.refl m)
  | field => exact hend .field (.refl m)
  | typeRef assembly => exact hend .typeRef (m.extends_withAssemblyRef assembly {})
  | methodRef | fieldRef => exact hend .memberRef (.refl m)
  | forward nspace name assembly =>
    exact hend .exportedType (m.extends_withAssemblyRef assembly {})
  | forwardNested => exact hend .exportedType (.refl m)

theorem nodup_answers (m : Module) (steps : List BuildStep) :
    (((steps.zip (m.buildAll steps).1).filter fun e ↦ e.1.adds).map Prod.snd).Nodup := by
  induction steps using List.reverseRecOn with
  | nil => exact .nil
  | append_singleton steps s ih =>
    rw [buildAll_concat, List.zip_append (m.length_buildAll steps).symm, List.filter_append,
      List.map_append]
    refine List.nodup_append.mpr ⟨ih, ?_, fun r hr r' hr' heq ↦ ?_⟩
    · cases hs : s.adds <;> simp [hs]
    · obtain ⟨e, he, rfl⟩ := List.mem_map.mp hr
      obtain ⟨e', he', rfl⟩ := List.mem_map.mp hr'
      obtain ⟨hlast, hadds⟩ := List.mem_filter.mp he'
      obtain rfl := List.mem_singleton.mp hlast
      refine not_has_build (m.buildAll steps).2 hadds ((congrArg (Has _ ·.site) heq).mp ?_)
      exact (m.denotes_buildAll steps e (List.mem_of_mem_filter he)).has

theorem mem_typeIds_addType {d : TypeDef} {t : TypeId} (ht : t ∈ (m.addType d).2.typeIds) :
    t ∈ m.typeIds ∨ (m.addType d).1 = t := by
  rw [typeIds_succ m (m.length_types_addType d)] at ht
  exact (List.mem_append.mp ht).imp_right fun hlast ↦ (List.mem_singleton.mp hlast).symm

theorem mem_typeIds_withModuleType {t : TypeId} (ht : t ∈ m.withModuleType.2.typeIds) :
    t ∈ m.typeIds ∨ m.withModuleType.2.moduleType? = some t := by
  rw [moduleType?_withModuleType]
  unfold withModuleType at ht ⊢
  split at ht
  · exact .inl ht
  · exact (mem_typeIds_addType ht).imp_right (congrArg some)

theorem types_withAssemblyRef (m : Module) (name : String) (version : Version) :
    (m.withAssemblyRef name version).2.types = m.types := by
  unfold withAssemblyRef
  split <;> rfl

/-- A type that is new after a step is the answer of the step, or the module-level type. -/
theorem mem_typeIds_build {s : BuildStep} {t : TypeId} (ht : t ∈ (m.build s).2.typeIds) :
    t ∈ m.typeIds ∨ s.adds = true ∧ (m.build s).1 = .type t
      ∨ (m.build s).2.moduleType? = some t := by
  have hsame : ∀ {m' : Module}, m'.types.length = m.types.length → t ∈ m'.typeIds → t ∈ m.typeIds :=
    fun hlen hmem ↦ m.typeIds_congr hlen ▸ hmem
  cases s with
  | type nspace name visibility =>
    exact (mem_typeIds_addType (d := { nspace, name, visibility }) ht).imp_right fun hid ↦
      .inl ⟨rfl, congrArg Built.type hid⟩
  | nestedType outer name visibility =>
    exact (mem_typeIds_addType (d := { name, visibility, declaring := some outer }) ht).imp_right
      fun hid ↦ .inl ⟨rfl, congrArg Built.type hid⟩
  | moduleType => exact (mem_typeIds_withModuleType ht).imp_right .inr
  | initializer =>
    rw [build, typeIds_congr _ (length_types_addMethod _ _)] at ht
    exact (mem_typeIds_withModuleType ht).imp_right fun hid ↦
      .inr ((extends_addMethod _ _).moduleType? hid)
  | method => exact .inl (hsame (m.length_types_addMethod _) ht)
  | field => exact .inl (hsame (m.length_types_addField _) ht)
  | assemblyRef | typeRef | forward =>
    exact .inl (hsame (congrArg List.length (m.types_withAssemblyRef _ _)) ht)
  | methodRef | fieldRef | forwardNested => exact .inl ht

/-- Every type is the answer of a step that adds, but for the module-level type. -/
theorem mem_typeIds_buildAll (hempty : m.types = []) {steps : List BuildStep} {t : TypeId}
    (ht : t ∈ (m.buildAll steps).2.typeIds) :
    (∃ s, (s, .type t) ∈ steps.zip (m.buildAll steps).1 ∧ s.adds = true)
      ∨ (m.buildAll steps).2.moduleType? = some t := by
  induction steps using List.reverseRecOn with
  | nil => simp [hempty] at ht
  | append_singleton steps s ih =>
    rw [buildAll_concat, List.zip_append (m.length_buildAll steps).symm]
    rw [buildAll_concat] at ht
    rcases mem_typeIds_build ht with ht | ⟨hadds, hanswer⟩ | ht
    · refine (ih ht).imp (fun ⟨s', hs', hadds⟩ ↦ ?_) (extends_build _ s).moduleType?
      exact ⟨s', List.mem_append_left _ hs', hadds⟩
    · refine .inl ⟨s, List.mem_append_right _ ?_, hadds⟩
      rw [hanswer]
      exact List.mem_singleton_self _
    · exact .inr ht

/-! ## Built modules -/

/-- What holds of the module that steps lead to from an empty one, and of their answers. -/
structure WellBuilt (start : Module) (steps : List BuildStep) : Prop where
  valid : (start.buildAll steps).2.validate = .ok ()
  /-- A type is listed by the type that it declares to be nested in, and by no other. -/
  mem_nested : ∀ t o, t ∈ ((start.buildAll steps).2.typeDef o).nested
    ↔ t ∈ (start.buildAll steps).2.typeIds
      ∧ ((start.buildAll steps).2.typeDef t).declaring = some o
  /-- Over all lists of the module, every entry is listed once that has an owner, by its owner. -/
  links : (start.buildAll steps).2.ExactLinks
  assemblyRefs : (start.buildAll steps).2.assemblyRefs.Pairwise fun a b ↦
    Text.sameName a.name b.name = false
  /-- Every step has an answer. -/
  length : (start.buildAll steps).1.length = steps.length
  /-- In the finished module the answer still denotes what the step has asked for. -/
  denotes : ∀ e ∈ steps.zip (start.buildAll steps).1, (start.buildAll steps).2.Denotes e.1 e.2
  /-- No entry and no answer of an earlier moment has changed since. -/
  moments : ∀ before after, before ++ after = steps →
    (start.buildAll before).2.Extends (start.buildAll steps).2
      ∧ (start.buildAll before).1 <+: (start.buildAll steps).1
  /-- Steps that add answer with entries of their own. -/
  distinct : (((steps.zip (start.buildAll steps).1).filter fun e ↦ e.1.adds).map Prod.snd).Nodup
  /-- Among the types that no step has asked for there is at most the module-level type. -/
  asked : ∀ t ∈ (start.buildAll steps).2.typeIds,
    (∃ s, (s, .type t) ∈ steps.zip (start.buildAll steps).1 ∧ s.adds = true)
      ∨ (start.buildAll steps).2.moduleType? = some t

/-- Steps that are given nothing but answers of earlier ones build a well-formed module. -/
theorem wellBuilt_of_usesEarlier (name : String) (version : Version) (runtime : String)
    (resources : Option ResourceDirectory) {steps : List BuildStep}
    (h : UsesEarlier { name, version, runtime, resources } steps) :
    WellBuilt { name, version, runtime, resources } steps := by
  have htidy := (Tidy.of_empty name version runtime resources).buildAll h
  exact {
    valid := validate_of_linked htidy.linked htidy.closed
    mem_nested := fun t o ↦ htidy.linked.mem_nested.trans (and_congr_left' mem_typeIds.symm)
    links := htidy.linked.exactLinks
    assemblyRefs := htidy.assemblyRefs
    length := length_buildAll _ steps
    denotes := denotes_buildAll _ steps
    moments := fun before after heq ↦ heq ▸ extends_buildAll_append _ before after
    distinct := nodup_answers _ steps
    asked := fun t ht ↦ mem_typeIds_buildAll rfl ht }

/-- Steps of every kind: nested types, members that mention them and one another, a name of another
module in two spellings, and the module-level type asked for after an initializer has needed it. -/
def mixedSteps : List BuildStep :=
  [.type "App" "Window" .public, .nestedType ⟨0⟩ "Part" .nestedPublic,
    .typeRef "Core" "Core" "Object", .assemblyRef "CORE" ⟨4, 0, 0, 0⟩,
    .methodRef (.reference ⟨0⟩) "Equals" [.reference ⟨0⟩] none,
    .method ⟨1⟩ "Run" [.definition ⟨0⟩] (some (.array (.definition ⟨1⟩)))
      (some [.call (.reference ⟨0⟩), .ret]),
    .field ⟨0⟩ "parts" (.generic (.reference ⟨0⟩) [.definition ⟨1⟩]),
    .initializer [.call (.definition ⟨0⟩), .loadStatic (.definition ⟨0⟩), .ret],
    .moduleType, .fieldRef (.definition ⟨2⟩) "state" (.reference ⟨0⟩),
    .forward "App" "Theme" "Themes", .forwardNested ⟨0⟩ "Color", .type "" "<Module>" .public]

theorem wellBuilt_mixedSteps : UsesEarlier { name := "App" } mixedSteps
    ∧ WellBuilt { name := "App" } mixedSteps := by
  have h : UsesEarlier { name := "App" } mixedSteps := by decide +kernel
  exact ⟨h, wellBuilt_of_usesEarlier "App" {} "" none h⟩

example : (buildAll { name := "App" } mixedSteps).1.take 4
    = [.type ⟨0⟩, .type ⟨1⟩, .typeRef ⟨0⟩, .assemblyRef ⟨0⟩] := by decide +kernel

end Module

end ModuleLinker
