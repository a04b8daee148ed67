import ModuleLinker.Proofs.FreshNames

/-!
# The output and its caches

An output that is built quickly is not searched. Beside its tables stand four caches: the types by
qualified name, the type references and the member references as a whole, and the external modules
by name in lower case. A type is entered under a name that is free by the cache, and a reference is
added when the cache does not have it. Either way an entry of the table is followed by one of the
cache.

Nothing else writes to the caches, so they have to be kept in step by what the tables go through:
each cache is an index of one column of the tables, and what is not an operation of a cache leaves
all four columns as they are. The columns have no repetitions, since a cache that is in step misses
nothing. So building with caches and building by searches come to the same module.
-/

namespace ModuleLinker

open Relation (ReflTransGen)

/-- A module under construction with its caches. -/
structure CachedTarget extends IndexedTarget where
  typeRefs : Table TypeRef TypeRefId := {}
  memberRefs : Table MemberRef MemberRefId := {}
  /-- The external modules by name in lower case. -/
  assemblyRefs : Table String AssemblyRefId := {}
deriving DecidableEq

namespace CachedTarget

/-! ## Operations

Each operation asks its cache first, and writes to the table and to the cache when the answer is
that there is nothing. The names of types are handled as in `IndexedTarget`. -/

/-- An empty output. -/
def start (name : String) (primary : Module) : CachedTarget where
  toIndexedTarget := .start name primary

/-- Add a type and enter it under its qualified name. -/
def declare (c : CachedTarget) (d : TypeDef) : TypeId × CachedTarget :=
  let (id, t) := c.toIndexedTarget.declare d
  (id, { c with toIndexedTarget := t })

/-- The reserved module-level type, declared when it is first needed. -/
def moduleType (c : CachedTarget) : TypeId × CachedTarget :=
  match c.find? moduleTypeName with
  | some id => (id, c)
  | none => c.declare { name := moduleTypeName, visibility := .notPublic }

/-- The reference equal to a given one, added when there is none. -/
def internTypeRef (c : CachedTarget) (r : TypeRef) : TypeRefId × CachedTarget :=
  match c.typeRefs.find? r with
  | some id => (id, c)
  | none =>
    let (id, m) := c.module.addTypeRef r
    (id, { c with module := m, typeRefs := c.typeRefs.insert r id })

/-- The member reference equal to a given one, added when there is none. -/
def internMemberRef (c : CachedTarget) (r : MemberRef) : MemberRefId × CachedTarget :=
  match c.memberRefs.find? r with
  | some id => (id, c)
  | none =>
    let (id, m) := c.module.addMemberRef r
    (id, { c with module := m, memberRefs := c.memberRefs.insert r id })

/-- The reference to an external module, whose version is raised to the given one. -/
def referAssembly (c : CachedTarget) (r : AssemblyRef) : AssemblyRefId × CachedTarget :=
  match c.assemblyRefs.find? (Text.asciiLower r.name) with
  | some id =>
    let raised := c.module.assemblyRefs.modify id.index fun known ↦
      { known with version := known.version.highest r.version }
    (id, { c with module := { c.module with assemblyRefs := raised } })
  | none =>
    let (id, m) := c.module.addAssemblyRef r
    (id, { c with
      module := m, assemblyRefs := c.assemblyRefs.insert (Text.asciiLower r.name) id })

/-- What is done to an output. A type is declared inside a type that is there, under a name that the
cache does not have; an edit is any change but of the names of types and of the references. -/
inductive Step (c : CachedTarget) : CachedTarget → Prop
  | declare (d : TypeDef) (hin : ∀ o, d.declaring = some o → o.index < c.module.types.length)
      (hfree : c.find? (c.module.nameIn d.declaring d.nspace d.name) = none) :
      Step c (c.declare d).2
  | internTypeRef (r : TypeRef) : Step c (c.internTypeRef r).2
  | internMemberRef (r : MemberRef) : Step c (c.internMemberRef r).2
  | referAssembly (r : AssemblyRef) : Step c (c.referAssembly r).2
  | edit (m : Target) (hlabels : m.types.map TypeDef.label = c.module.types.map TypeDef.label)
      (htypeRefs : m.typeRefs = c.module.typeRefs)
      (hmemberRefs : m.memberRefs = c.module.memberRefs)
      (hassemblyRefs : m.assemblyRefs = c.module.assemblyRefs) :
      Step c { c with module := m }

/-! ## Caches in step

A new entry of a table is one at the end, and gets an entry of its cache with the same position.
An operation on one table leaves the columns of the other three as they are, so their caches need
not change. -/

/-- Each cache is an index of what it speaks of. -/
structure InStep (c : CachedTarget) : Prop where
  indexed : c.toIndexedTarget.InStep
  names : c.names.Indexes TypeId.mk
    ((Module.typeIds c.module).map (Module.qualifiedName c.module))
  typeRefs : c.typeRefs.Indexes TypeRefId.mk c.module.typeRefs
  memberRefs : c.memberRefs.Indexes MemberRefId.mk c.module.memberRefs
  assemblyRefs : c.assemblyRefs.Indexes AssemblyRefId.mk
    (c.module.assemblyRefs.map fun r ↦ Text.asciiLower r.name)

variable {c c' : CachedTarget}

namespace InStep

theorem start (name : String) (primary : Module) : (start name primary).InStep where
  indexed := .start name primary
  names := .nil _
  typeRefs := .nil _
  memberRefs := .nil _
  assemblyRefs := .nil _

theorem declare (h : c.InStep) {d : TypeDef}
    (hin : ∀ o, d.declaring = some o → o.index < c.module.types.length)
    (hfree : c.find? (c.module.nameIn d.declaring d.nspace d.name) = none) :
    (c.declare d).2.InStep := by
  have htables : (c.declare d).2.module = { c.module with
      types := (c.declare d).2.module.types } := c.module.addType_tables d
  refine ⟨h.indexed.declare hin, ?_, ?_, ?_, ?_⟩
  · -- the new type stands last, and the others keep their names
    have hnew : Module.qualifiedName (c.declare d).2.module (c.declare d).1
        = c.module.nameIn d.declaring d.nspace d.name := h.indexed.qualifiedName_declare_fst hin
    have hids : Module.typeIds (c.declare d).2.module
        = Module.typeIds c.module ++ [(c.declare d).1] :=
      Module.typeIds_succ _ (Module.length_types_addType c.module d)
    have hold : (Module.typeIds c.module).map (Module.qualifiedName (c.declare d).2.module)
        = (Module.typeIds c.module).map (Module.qualifiedName c.module) :=
      List.map_congr_left fun id hid ↦
        h.indexed.qualifiedName_declare hin (Module.mem_typeIds.mp hid)
    have hcount : ((Module.typeIds c.module).map (Module.qualifiedName c.module)).length
        = c.module.types.length := by simp [Module.typeIds]
    have hnames : (c.declare d).2.names
        = c.names.insert (c.module.nameIn d.declaring d.nspace d.name)
            ⟨((Module.typeIds c.module).map (Module.qualifiedName c.module)).length⟩ := by
      rw [hcount, ← hnew]
      rfl
    rw [hids, List.map_append, hold, List.map_singleton, hnew, hnames]
    exact h.names.insert hfree
  · rw [htables]
    exact h.typeRefs
  · rw [htables]
    exact h.memberRefs
  · rw [htables]
    exact h.assemblyRefs

theorem internTypeRef (h : c.InStep) (r : TypeRef) : (c.internTypeRef r).2.InStep := by
  unfold CachedTarget.internTypeRef
  cases hr : c.typeRefs.find? r with
  | some id => exact h
  | none => exact ⟨h.indexed.edit rfl, h.names, h.typeRefs.insert hr, h.memberRefs, h.assemblyRefs⟩

theorem internMemberRef (h : c.InStep) (r : MemberRef) : (c.internMemberRef r).2.InStep := by
  unfold CachedTarget.internMemberRef
  cases hr : c.memberRefs.find? r with
  | some id => exact h
  | none => exact ⟨h.indexed.edit rfl, h.names, h.typeRefs, h.memberRefs.insert hr, h.assemblyRefs⟩

theorem referAssembly (h : c.InStep) (r : AssemblyRef) : (c.referAssembly r).2.InStep := by
  unfold CachedTarget.referAssembly
  cases hr : c.assemblyRefs.find? (Text.asciiLower r.name) with
  | some id =>
    refine ⟨h.indexed.edit rfl, h.names, h.typeRefs, h.memberRefs, ?_⟩
    -- a version is no part of a key
    have hkeys := congrArg (List.map Text.asciiLower)
      (Target.map_name_raise c.module.assemblyRefs id.index r.version)
    rw [List.map_map, List.map_map] at hkeys
    exact hkeys ▸ h.assemblyRefs
  | none =>
    refine ⟨h.indexed.edit rfl, h.names, h.typeRefs, h.memberRefs, ?_⟩
    have hinsert := h.assemblyRefs.insert hr
    rw [List.length_map] at hinsert
    have hkeys : (c.module.assemblyRefs ++ [r]).map (fun r ↦ Text.asciiLower r.name)
        = c.module.assemblyRefs.map (fun r ↦ Text.asciiLower r.name)
          ++ [Text.asciiLower r.name] := List.map_append
    exact hkeys ▸ hinsert

theorem edit (h : c.InStep) {m : Target}
    (hlabels : m.types.map TypeDef.label = c.module.types.map TypeDef.label)
    (htypeRefs : m.typeRefs = c.module.typeRefs) (hmemberRefs : m.memberRefs = c.module.memberRefs)
    (hassemblyRefs : m.assemblyRefs = c.module.assemblyRefs) :
    InStep { c with module := m } where
  indexed := h.indexed.edit hlabels
  names := by
    have hlen : m.types.length = c.module.types.length := by
      simpa using congrArg List.length hlabels
    have hids : Module.typeIds m = Module.typeIds c.module := Module.typeIds_congr _ hlen
    have hkeys : (Module.typeIds m).map (Module.qualifiedName m)
        = (Module.typeIds c.module).map (Module.qualifiedName c.module) := by
      rw [hids]
      exact List.map_congr_left fun id hid ↦
        h.indexed.qualifiedName_edit hlabels (Module.mem_typeIds.mp hid)
    exact hkeys ▸ h.names
  typeRefs := htypeRefs ▸ h.typeRefs
  memberRefs := hmemberRefs ▸ h.memberRefs
  assemblyRefs := hassemblyRefs ▸ h.assemblyRefs

theorem step (h : c.InStep) (hstep : Step c c') : c'.InStep := by
  cases hstep with
  | declare d hin hfree => exact h.declare hin hfree
  | internTypeRef r => exact h.internTypeRef r
  | internMemberRef r => exact h.internMemberRef r
  | referAssembly r => exact h.referAssembly r
  | edit m hlabels htypeRefs hmemberRefs hassemblyRefs =>
    exact h.edit hlabels htypeRefs hmemberRefs hassemblyRefs

theorem steps (h : c.InStep) (hsteps : ReflTransGen Step c c') : c'.InStep := by
  induction hsteps with
  | refl => exact h
  | tail _ hstep ih => exact ih.step hstep

end InStep

/-- For the types by name alone, references are edits like all else. -/
theorem Step.reached (hstep : Step c c') (h : c.toIndexedTarget.Reached) :
    c'.toIndexedTarget.Reached := by
  cases hstep with
  | declare d hin _ => exact h.declare d hin
  | edit m hlabels _ _ _ => exact h.edit m hlabels
  | internTypeRef r =>
    unfold CachedTarget.internTypeRef
    split
    · exact h
    · exact h.edit _ rfl
  | internMemberRef r =>
    unfold CachedTarget.internMemberRef
    split
    · exact h
    · exact h.edit _ rfl
  | referAssembly r =>
    unfold CachedTarget.referAssembly
    split <;> exact h.edit _ rfl

theorem Step.reached_steps {name : String} {primary : Module}
    (h : ReflTransGen Step (start name primary) c) : c.toIndexedTarget.Reached := by
  induction h with
  | refl => exact .start name primary
  | tail _ hstep ih => exact hstep.reached ih

/-! ## What is read from the caches

A cache that is in step is the index of a column, so it finds exactly what a search through the
column finds. The operations differ from those without caches in nothing but how they find out. -/

/-- A cache finds what stands in the tables, where it stands, and nothing else. -/
structure Exact (c : CachedTarget) : Prop where
  types : ∀ qualified id, c.find? qualified = some id
    ↔ id ∈ Module.typeIds c.module ∧ Module.qualifiedName c.module id = qualified
  typeRefs : ∀ r (id : TypeRefId),
    c.typeRefs.find? r = some id ↔ c.module.typeRefs[id.index]? = some r
  memberRefs : ∀ r (id : MemberRefId),
    c.memberRefs.find? r = some id ↔ c.module.memberRefs[id.index]? = some r
  assemblyRefs : ∀ name (id : AssemblyRefId), c.assemblyRefs.find? (Text.asciiLower name) = some id
    ↔ ∃ r, c.module.assemblyRefs[id.index]? = some r ∧ Text.sameName r.name name = true

/-- An answer, and the module that it leaves behind. -/
def plain {α : Type} (x : α × CachedTarget) : α × Target := (x.1, x.2.module)

/-- Whatever is asked of the caches is answered as a search through the tables would answer it, and
leaves the module that is left after a search. -/
structure ActsAlike (c : CachedTarget) : Prop where
  find? : ∀ qualified, c.find? qualified = c.module.lookup? qualified
  uniqueName : ∀ container nspace name origin, c.uniqueName container nspace name origin
    = Part.some (c.module.freshName container nspace name origin)
  declare : ∀ d, plain (c.declare d) = c.module.addType d
  moduleType : plain c.moduleType = c.module.ensureModuleType
  internTypeRef : ∀ r, plain (c.internTypeRef r) = c.module.internTypeRef r
  internMemberRef : ∀ r, plain (c.internMemberRef r) = c.module.internMemberRef r
  referAssembly : ∀ r, plain (c.referAssembly r) = c.module.referAssembly r

namespace InStep

theorem namesDistinct (h : c.InStep) : Module.NamesDistinct c.module := fun _ _ hi hj heq ↦
  List.inj_on_of_nodup_map h.names.nodup (Module.mem_typeIds.mpr hi) (Module.mem_typeIds.mpr hj) heq

theorem exact (h : c.InStep) : c.Exact where
  types qualified id := by
    refine (h.names.find?_eq_some_iff (i := id.index) fun _ _ heq ↦ TypeId.mk.inj heq).trans ?_
    rw [List.getElem?_eq_some_iff, Module.mem_typeIds]
    simp [Module.typeIds]
  typeRefs r id := h.typeRefs.find?_eq_some_iff fun _ _ heq ↦ TypeRefId.mk.inj heq
  memberRefs r id := h.memberRefs.find?_eq_some_iff fun _ _ heq ↦ MemberRefId.mk.inj heq
  assemblyRefs name id := by
    refine (h.assemblyRefs.find?_eq_some_iff (i := id.index)
      fun _ _ heq ↦ AssemblyRefId.mk.inj heq).trans ?_
    simp [Text.sameName_iff]

theorem plain_internTypeRef (h : c.InStep) (r : TypeRef) :
    plain (c.internTypeRef r) = c.module.internTypeRef r := by
  rw [CachedTarget.internTypeRef, Target.internTypeRef, h.typeRefs.find?_eq]
  cases c.module.typeRefs.findIdx? (· = r) <;> rfl

theorem plain_internMemberRef (h : c.InStep) (r : MemberRef) :
    plain (c.internMemberRef r) = c.module.internMemberRef r := by
  rw [CachedTarget.internMemberRef, Target.internMemberRef, h.memberRefs.find?_eq]
  cases c.module.memberRefs.findIdx? (· = r) <;> rfl

theorem plain_referAssembly (h : c.InStep) (r : AssemblyRef) :
    plain (c.referAssembly r) = c.module.referAssembly r := by
  have hfind : c.assemblyRefs.find? (Text.asciiLower r.name)
      = Module.findAssemblyRef? c.module r.name := by
    rw [h.assemblyRefs.find?_eq, List.findIdx?_map]
    rfl
  rw [CachedTarget.referAssembly, Target.referAssembly, hfind]
  cases Module.findAssemblyRef? c.module r.name <;> rfl

theorem actsAlike (h : c.InStep) : c.ActsAlike where
  find? := h.indexed.find?_eq
  uniqueName container nspace name origin := h.indexed.uniqueName_eq name origin
  declare d := rfl
  moduleType := by
    rw [CachedTarget.moduleType, Target.ensureModuleType, h.indexed.find?_eq]
    cases c.module.lookup? moduleTypeName <;> rfl
  internTypeRef := h.plain_internTypeRef
  internMemberRef := h.plain_internMemberRef
  referAssembly := h.plain_referAssembly

end InStep

end CachedTarget

end ModuleLinker
