import Mathlib.Data.List.Perm.Subperm
import ModuleLinker.Proofs.Image.Growth
import ModuleLinker.Proofs.Rows

/-!
# Names of types

The qualified name of a type is the name that it has inside its declaring type, so it is settled
when the type is entered and stays what it is while the module grows.

Under construction no two types have the same qualified name. A type is entered under a name that
nobody has yet: its own, or the first candidate that is free. The candidates differ from one
another, so a module of `n` types cannot have taken `n + 1` of them.

A qualified name is a text. It tells the container of a type from its own name only while no name
holds the separator that stands between the two.
-/

namespace ModuleLinker

/-- What a type is called by: its declaring type, its namespace and its name. -/
def TypeDef.label (d : TypeDef) : Option TypeId × String × String := (d.declaring, d.nspace, d.name)

namespace Module

variable {m m' : Module}

/-! ## Names of a module

The name of a type depends on its own label and the labels of its declaring types, which stand
before it. So it is settled when the type is entered. -/

/-- The declaring types of every type come to an end. -/
def DeclaringEnds (m : Module) : Prop :=
  ∀ id, Chain.Complete (fun t ↦ (m.typeDef t).declaring) (m.declaringChain id)

theorem DeclaringEnds.qualifiedName_eq_nameIn (h : m.DeclaringEnds) (id : TypeId) :
    m.qualifiedName id
      = Target.nameIn m (m.typeDef id).declaring (m.typeDef id).nspace (m.typeDef id).name := by
  have hchain := h id
  obtain ⟨rest, hrest⟩ := Chain.follow_eq_cons
    (fun t ↦ (m.typeDef t).declaring) m.types.length id
  rw [← declaringChain] at hrest
  cases hd : (m.typeDef id).declaring with
  | none =>
    have hone : m.declaringChain id = [id] :=
      hchain.eq_of_head (.last hd) (by rw [hrest]; rfl)
    rw [qualifiedName, hone]
    rfl
  | some o =>
    have houter := h o
    obtain ⟨above, habove⟩ := Chain.follow_eq_cons
      (fun t ↦ (m.typeDef t).declaring) m.types.length o
    rw [← declaringChain] at habove
    rw [habove] at houter
    have hmore : m.declaringChain id = id :: o :: above :=
      hchain.eq_of_head (.link hd houter) (by rw [hrest]; rfl)
    rw [qualifiedName, hmore, Target.nameIn, qualifiedName, habove]
    exact chainName_cons_cons _ _ _

theorem qualifiedName_eq_nameIn (h : m.fault? = none) (id : TypeId) :
    m.qualifiedName id
      = Target.nameIn m (m.typeDef id).declaring (m.typeDef id).nspace (m.typeDef id).name :=
  DeclaringEnds.qualifiedName_eq_nameIn (complete_declaringChain h) id

/-- Types keep their names as long as they keep what they are called by. -/
theorem qualifiedName_eq_of_label (hm : m.DeclaringEnds) (hm' : m'.DeclaringEnds)
    (hdown : ∀ {t o : TypeId}, (m.typeDef t).declaring = some o → o.index < t.index)
    (hlabel : ∀ t : TypeId, t.index < m.types.length →
      (m'.typeDef t).label = (m.typeDef t).label)
    {id : TypeId} (hid : id.index < m.types.length) : m'.qualifiedName id = m.qualifiedName id := by
  -- declaring types stand before the types declared in them
  induction hn : id.index using Nat.strong_induction_on generalizing id with
  | _ n ih =>
    obtain ⟨hdeclaring, hparts⟩ := Prod.mk.inj (hlabel id hid)
    obtain ⟨hnspace, hname⟩ := Prod.mk.inj hparts
    rw [hm'.qualifiedName_eq_nameIn, hm.qualifiedName_eq_nameIn, hdeclaring, hnspace, hname]
    cases hd : (m.typeDef id).declaring with
    | none => rfl
    | some o =>
      have ho := hdown hd
      rw [Target.nameIn, Target.nameIn, ih o.index (hn ▸ ho) (Nat.lt_trans ho hid) rfl]

theorem Grows.qualifiedName_eq (h : m.Grows m') (hl : m.Linked) (hm : m.fault? = none)
    (hm' : m'.fault? = none) {id : TypeId} (hid : id.index < m.types.length) :
    m'.qualifiedName id = m.qualifiedName id := by
  refine qualifiedName_eq_of_label (complete_declaringChain hm) (complete_declaringChain hm')
    hl.declaring_lt (fun t ht ↦ ?_) hid
  have hlabel := congrArg TypeDef.label (h.typeDef ht)
  exact hlabel

end Module

/-- No two types have the same qualified name. -/
def Module.NamesDistinct (m : Module) : Prop :=
  ∀ i j : TypeId, i.index < m.types.length → j.index < m.types.length →
    m.qualifiedName i = m.qualifiedName j → i = j

instance (m : Module) : Decidable m.NamesDistinct :=
  decidable_of_iff
    (∀ i ∈ m.typeIds, ∀ j ∈ m.typeIds, m.qualifiedName i = m.qualifiedName j → i = j)
    ⟨fun h i j hi hj ↦ h i (Module.mem_typeIds.mpr hi) j (Module.mem_typeIds.mpr hj),
      fun h i hi j hj ↦ h i j (Module.mem_typeIds.mp hi) (Module.mem_typeIds.mp hj)⟩

/-! ## The reserved name

Module-level types are told apart from all others by their name: it has no namespace, and no
nested type can have it, since a nested name has a separator in it. -/

/-- Inside a container no name is the reserved one, and at the top only the reserved name without a
namespace is. -/
theorem Target.nameIn_eq_moduleTypeName {t : Target} {container : Option TypeId}
    {nspace name : String} (h : t.nameIn container nspace name = moduleTypeName) :
    container = none ∧ nspace = "" ∧ name = moduleTypeName := by
  have hmem : ∀ {c : Char} {x y : String}, x ++ String.singleton c ++ y = moduleTypeName →
      c ∈ moduleTypeName.toList := by
    intro c x y hxy
    rw [← hxy]
    simp
  cases container with
  | some o => exact absurd (hmem (c := '/') h) (by decide)
  | none =>
    by_cases hn : nspace = ""
    · refine ⟨rfl, hn, ?_⟩
      rw [← h, nameIn, joinNamespace, if_pos hn]
    · rw [nameIn, joinNamespace, if_neg hn] at h
      exact absurd (hmem (c := '.') h) (by decide)

/-- The reserved type of a module is known by its reserved name, and no other type is. -/
theorem Module.qualifiedName_eq_moduleTypeName_iff {m : Module} (h : m.fault? = none)
    {id : TypeId} : m.qualifiedName id = moduleTypeName ↔ (m.typeDef id).isModuleType = true := by
  rw [qualifiedName_eq_nameIn h]
  constructor
  · intro heq
    obtain ⟨hd, hn, hname⟩ := Target.nameIn_eq_moduleTypeName heq
    simp [TypeDef.isModuleType, hd, hn, hname]
  · intro hmod
    simp only [TypeDef.isModuleType, Bool.and_eq_true, Option.isNone_iff_eq_none,
      decide_eq_true_eq] at hmod
    rw [hmod.1.1, hmod.1.2, hmod.2]
    rfl

namespace Target

variable {t : Target}

/-! ## Looking names up -/

theorem qualifiedName_of_lookup? {q : String} {id : TypeId} (h : t.lookup? q = some id) :
    Module.qualifiedName t id = q := by
  simpa using List.find?_some h

theorem lookup?_lt {q : String} {id : TypeId} (h : t.lookup? q = some id) :
    id.index < t.types.length := by
  have hmem := List.mem_of_find?_eq_some h
  rwa [List.mem_reverse, Module.mem_typeIds] at hmem

theorem lookup?_eq_none_iff {q : String} :
    t.lookup? q = none ↔ ∀ id : TypeId, id.index < t.types.length → t.qualifiedName id ≠ q := by
  simp [lookup?]

/-- Where names are distinct, a type is found under its qualified name. -/
theorem lookup?_qualifiedName (h : Module.NamesDistinct t) {id : TypeId}
    (hid : id.index < t.types.length) : t.lookup? (t.qualifiedName id) = some id := by
  cases hfound : t.lookup? (t.qualifiedName id) with
  | none => exact absurd rfl (lookup?_eq_none_iff.mp hfound id hid)
  | some j => rw [h j id (lookup?_lt hfound) hid (qualifiedName_of_lookup? hfound)]

/-! ## Entering types -/

section AddType

variable {shell : TypeDef} (hin : ∀ o, shell.declaring = some o → o.index < t.types.length)
  (hl : Module.Linked t) (ht : Module.fault? t = none)
  (ht' : Module.fault? (t.addType shell).2 = none)
include hin hl ht ht'

theorem qualifiedName_addType :
    Module.qualifiedName (t.addType shell).2 ⟨t.types.length⟩
      = t.nameIn shell.declaring shell.nspace shell.name := by
  rw [Module.qualifiedName_eq_nameIn ht', Module.typeDef_addType _ hin, if_pos rfl]
  cases hd : shell.declaring with
  | none => rfl
  | some o =>
    rw [nameIn, nameIn, (Module.Grows.addType t shell).qualifiedName_eq hl ht ht' (hin o hd)]

theorem namesDistinct_addType (h : Module.NamesDistinct t)
    (hfree : t.lookup? (t.nameIn shell.declaring shell.nspace shell.name) = none) :
    Module.NamesDistinct (t.addType shell).2 := by
  have hnew := qualifiedName_addType hin hl ht ht'
  have hold : ∀ i : TypeId, i.index < t.types.length →
      Module.qualifiedName (t.addType shell).2 i = t.qualifiedName i := fun i hi ↦
    (Module.Grows.addType t shell).qualifiedName_eq hl ht ht' hi
  have hcases : ∀ i : TypeId, i.index < (t.addType shell).2.types.length →
      i.index < t.types.length ∨ i = ⟨t.types.length⟩ := by
    intro i hi
    rw [Module.length_types_addType] at hi
    rcases Nat.lt_succ_iff_lt_or_eq.mp hi with hlt | heq
    · exact .inl hlt
    · exact .inr (congrArg TypeId.mk heq)
  intro i j hi hj heq
  rcases hcases i hi with hi | rfl <;> rcases hcases j hj with hj | rfl
  · rw [hold i hi, hold j hj] at heq
    exact h i j hi hj heq
  · rw [hold i hi, hnew] at heq
    exact absurd heq (lookup?_eq_none_iff.mp hfree i hi)
  · rw [hold j hj, hnew] at heq
    exact absurd heq.symm (lookup?_eq_none_iff.mp hfree j hj)
  · rfl

end AddType

/-! ## Fresh names

The candidates are all different. A table of types is finite, so one of the first candidates is
free, and a bounded search finds it. -/

theorem candidate_injective {origin name : String} {i j : Nat}
    (h : candidate origin name i = candidate origin name j) : i = j := by
  have hnumbered : ∀ k, candidate origin name 0 ≠ candidate origin name (k + 1) := by
    intro k heq
    have hlen := congrArg String.length heq
    simp only [candidate, String.length_append] at hlen
    have hone : "_".length = 1 := rfl
    omega
  cases i with
  | zero =>
    cases j with
    | zero => rfl
    | succ j => exact absurd h (hnumbered j)
  | succ i =>
    cases j with
    | zero => exact absurd h.symm (hnumbered i)
    | succ j =>
      simp only [candidate, String.append_right_inj, Nat.toString_eq_repr] at h
      have hread := congrArg (fun digits ↦ Nat.ofDigitChars 10 digits.toList 0) h
      simpa [Nat.toList_repr] using hread

theorem nameIn_injective {container : Option TypeId} {nspace name name' : String}
    (h : t.nameIn container nspace name = t.nameIn container nspace name') : name = name' := by
  cases container with
  | some o => exact (String.append_right_inj _).mp h
  | none =>
    simp only [nameIn, joinNamespace] at h
    split at h
    · exact h
    · exact (String.append_right_inj _).mp h

/-- A module cannot have taken more candidates than it has types. -/
theorem exists_candidate_free (t : Target) (container : Option TypeId)
    (nspace name origin : String) :
    ∃ k ≤ t.types.length, t.isTaken container nspace (candidate origin name k) = false := by
  by_contra hall
  have htaken : ∀ k ≤ t.types.length,
      t.isTaken container nspace (candidate origin name k) = true := fun k hk ↦
    Bool.not_eq_false _ ▸ fun hfree ↦ hall ⟨k, hk, hfree⟩
  -- the names of all candidates would be names of types, and there are too many of them
  have hnodup : ((List.range (t.types.length + 1)).map fun k ↦
      t.nameIn container nspace (candidate origin name k)).Nodup :=
    List.nodup_range.map fun i j hij ↦ candidate_injective (nameIn_injective hij)
  have hsub : ((List.range (t.types.length + 1)).map fun k ↦
      t.nameIn container nspace (candidate origin name k))
        ⊆ (Module.typeIds t).map (Module.qualifiedName t) := by
    intro q hq
    obtain ⟨k, hk, rfl⟩ := List.mem_map.mp hq
    obtain ⟨id, hid⟩ := Option.isSome_iff_exists.mp
      (htaken k (Nat.lt_succ_iff.mp (List.mem_range.mp hk)))
    exact List.mem_map.mpr
      ⟨id, Module.mem_typeIds.mpr (lookup?_lt hid), qualifiedName_of_lookup? hid⟩
  have hle := (hnodup.subperm hsub).length_le
  simp only [Module.typeIds, List.length_map, List.length_range] at hle
  omega

/-- A fresh name is the first candidate that is free. -/
theorem freshName_eq_first (t : Target) (container : Option TypeId) (nspace name origin : String) :
    ∃ k ≤ t.types.length, t.freshName container nspace name origin = candidate origin name k
      ∧ t.isTaken container nspace (candidate origin name k) = false
      ∧ ∀ j < k, t.isTaken container nspace (candidate origin name j) = true := by
  obtain ⟨n, hn, hfree⟩ := t.exists_candidate_free container nspace name origin
  have hsome : ((List.range (t.types.length + 1)).find? fun k ↦
      !t.isTaken container nspace (candidate origin name k)).isSome := by
    simp only [List.find?_isSome, List.mem_range]
    exact ⟨n, Nat.lt_succ_iff.mpr hn, by simp [hfree]⟩
  obtain ⟨k, hk⟩ := Option.isSome_iff_exists.mp hsome
  obtain ⟨hkfree, hkn, hbefore⟩ := List.find?_range_eq_some.mp hk
  refine ⟨k, Nat.lt_succ_iff.mp (List.mem_range.mp hkn), ?_, by simpa using hkfree,
    fun j hj ↦ by simpa using hbefore j hj⟩
  rw [freshName, List.find?_map]
  simp only [Function.comp_def, hk, Option.map_some, Option.getD_some]

theorem lookup?_freshName (t : Target) (container : Option TypeId) (nspace name origin : String) :
    t.lookup? (t.nameIn container nspace (t.freshName container nspace name origin)) = none := by
  obtain ⟨k, -, hk, hfree, -⟩ := t.freshName_eq_first container nspace name origin
  rw [hk]
  simpa [isTaken] using hfree

end Target

/-! ## The separator

A qualified name does not always tell which container it is a name in: a name may hold the
separator itself. Where none does, the last separator tells. -/

/-- Nothing that a module is called or calls its types holds the separator of nested names. -/
def Module.PlainNames (m : Module) : Prop :=
  '/' ∉ m.name.toList ∧ ∀ t ∈ m.types, '/' ∉ t.nspace.toList ∧ '/' ∉ t.name.toList

instance (m : Module) : Decidable m.PlainNames := inferInstanceAs (Decidable (_ ∧ _))

theorem Module.PlainNames.typeDef {m : Module} (h : m.PlainNames) (id : TypeId) :
    '/' ∉ (m.typeDef id).nspace.toList ∧ '/' ∉ (m.typeDef id).name.toList := by
  by_cases hid : id.index < m.types.length
  · refine h.2 _ ?_
    rw [Module.typeDef, List.getD_eq_getElem _ _ hid]
    exact List.getElem_mem hid
  · rw [Module.typeDef_of_not_lt hid]
    exact ⟨by decide, by decide⟩

theorem slash_notMem_joinNamespace {nspace name : String} (hn : '/' ∉ nspace.toList)
    (hname : '/' ∉ name.toList) : '/' ∉ (joinNamespace nspace name).toList := by
  unfold joinNamespace
  split
  · exact hname
  · simp [hn, hname]

/-- The last separator of a text tells what stands before it from what stands behind. -/
theorem append_slash_inj {x x' y y' : String} (hy : '/' ∉ y.toList) (hy' : '/' ∉ y'.toList)
    (h : x ++ "/" ++ y = x' ++ "/" ++ y') : x = x' ∧ y = y' := by
  have hback := congrArg (fun s : String ↦ s.toList.reverse) h
  simp only [String.toList_append, List.reverse_append, List.append_assoc] at hback
  -- read from behind, it is the first one
  obtain ⟨hy, hx⟩ := append_cons_inj (mt List.mem_reverse.mp hy) (mt List.mem_reverse.mp hy') hback
  exact ⟨String.toList_inj.mp (List.reverse_inj.mp hx),
    String.toList_inj.mp (List.reverse_inj.mp hy)⟩

namespace Target

variable {t : Target}

/-- Where no name holds the separator, a qualified name says which container it belongs to. -/
theorem container_eq_of_nameIn {c c' : Option TypeId} {nspace nspace' name name' : String}
    (hdistinct : Module.NamesDistinct t) (hc : ∀ o, c = some o → o.index < t.types.length)
    (hc' : ∀ o, c' = some o → o.index < t.types.length)
    (hn : '/' ∉ nspace.toList) (hname : '/' ∉ name.toList)
    (hn' : '/' ∉ nspace'.toList) (hname' : '/' ∉ name'.toList)
    (h : t.nameIn c nspace name = t.nameIn c' nspace' name') : c = c' := by
  have hmem : ∀ {x y : String}, '/' ∈ (x ++ "/" ++ y).toList := by simp
  cases c with
  | none =>
    cases c' with
    | none => rfl
    | some o' =>
      rw [nameIn, nameIn] at h
      exact absurd (h ▸ hmem) (slash_notMem_joinNamespace hn hname)
  | some o =>
    cases c' with
    | none =>
      rw [nameIn, nameIn] at h
      exact absurd (h ▸ hmem) (slash_notMem_joinNamespace hn' hname')
    | some o' =>
      rw [nameIn, nameIn] at h
      have houter := (append_slash_inj hname hname' h).1
      rw [hdistinct o o' (hc o rfl) (hc' o' rfl) houter]

theorem exists_freshName_eq (t : Target) (container : Option TypeId) (nspace name origin : String) :
    ∃ k, t.freshName container nspace name origin = candidate origin name k := by
  obtain ⟨k, -, hk, -⟩ := t.freshName_eq_first container nspace name origin
  exact ⟨k, hk⟩

theorem slash_notMem_candidate {origin name : String} (ho : '/' ∉ origin.toList)
    (hname : '/' ∉ name.toList) (k : Nat) : '/' ∉ (candidate origin name k).toList := by
  cases k with
  | zero => simp [candidate, ho, hname]
  | succ k =>
    have hdigits : '/' ∉ Nat.toDigits 10 (k + 2) := fun hmem ↦
      absurd (Nat.isDigit_of_mem_toDigits (by decide) (by decide) hmem) (by decide)
    simp [candidate, ho, hname, hdigits]

end Target

end ModuleLinker
