import Mathlib.Data.List.Find
import Mathlib.Data.List.GetD
import Mathlib.Data.PFun
import ModuleLinker.Proofs.Image.Names
import ModuleLinker.Proofs.Table

/-!
# Free names

A type whose name is taken gets the first name of a numbered series that is free inside its
container. The search for that name carries no bound: it asks an index of the types by qualified
name for one name after another, until one is not there.

The index is written by declarations alone, and keeps the latest type of each name. It answers like
a search through the types themselves, because a type keeps the name that it was entered under. So
the series holds more names than there are types to take them, the search ends, and all the names
that it has passed are names of types. The one that it ends at is new to the index: declaring a type
under it appends an entry and replaces none.
-/

namespace ModuleLinker

/-! ## Names that stay

A type is called by its namespace, its name and its declaring types, and those stand before it. So
adding a type behind the others changes the name of none of them. -/

/-- Declaring types that stand before the types declared in them come to an end. -/
theorem Module.declaringEnds_of_lt {m : Module}
    (hdown : ∀ {t o : TypeId}, (m.typeDef t).declaring = some o → o.index < t.index) :
    m.DeclaringEnds := by
  intro id
  refine Chain.complete_follow ?_
  by_cases hid : id.index < m.types.length
  · exact Chain.endsWithin_of_lt TypeId.index (fun _ _ h ↦ hdown h) (Nat.le_of_lt hid)
  · refine Chain.endsWithin_of_none ?_ _
    rw [typeDef_of_not_lt hid]
    rfl

theorem Module.label_typeDef_of_labels {m m' : Module}
    (h : m'.types.map TypeDef.label = m.types.map TypeDef.label) (id : TypeId) :
    (m'.typeDef id).label = (m.typeDef id).label := by
  rw [typeDef, typeDef, ← List.getD_map (f := TypeDef.label),
    ← List.getD_map (f := TypeDef.label), h]

namespace Target

variable {t t' : Target}

/-- Looking a type up reads nothing of the types but their names. -/
theorem find?_reverse_typeIds (hnames : ∀ id : TypeId, id.index < t.types.length →
      Module.qualifiedName t' id = Module.qualifiedName t id) (q : String) :
    ((Module.typeIds t).reverse.find? fun id ↦ Module.qualifiedName t' id = q) = t.lookup? q := by
  refine List.find?_congr fun id hid ↦ ?_
  rw [hnames id (Module.mem_typeIds.mp (List.mem_reverse.mp hid))]

theorem lookup?_addType {d : TypeDef}
    (hnames : ∀ id : TypeId, id.index < t.types.length →
      Module.qualifiedName (t.addType d).2 id = Module.qualifiedName t id) (q : String) :
    lookup? (t.addType d).2 q
      = if Module.qualifiedName (t.addType d).2 ⟨t.types.length⟩ = q then some ⟨t.types.length⟩
        else t.lookup? q := by
  rw [lookup?, Module.typeIds_succ _ (Module.length_types_addType t d), List.reverse_append,
    List.reverse_singleton, List.singleton_append, List.find?_cons, find?_reverse_typeIds hnames]
  by_cases hq : Module.qualifiedName (t.addType d).2 ⟨t.types.length⟩ = q <;> simp [hq]

end Target

/-! ## The index

Declarations keep the index in step, and so do all edits that leave alone what types are called
by. An import makes many of those between two declarations. -/

/-- A module under construction, and its types by qualified name. -/
structure IndexedTarget where
  module : Target
  names : Table String TypeId := {}
deriving DecidableEq

namespace IndexedTarget

/-- An empty output. -/
def start (name : String) (primary : Module) : IndexedTarget :=
  { module := Target.start name primary }

/-- Add a type and enter it under its qualified name. -/
def declare (t : IndexedTarget) (d : TypeDef) : TypeId × IndexedTarget :=
  let (id, m) := t.module.addType d
  (id, { module := m, names := t.names.insert (m.qualifiedName id) id })

def find? (t : IndexedTarget) (qualified : String) : Option TypeId := t.names.find? qualified

/-- Look at one name: it is free, or the next number makes another one to look at. -/
def searchRound (t : IndexedTarget) (container : Option TypeId) (nspace base : String) :
    Nat × String → String ⊕ (Nat × String)
  | (counter, candidate) =>
    if (t.find? (t.module.nameIn container nspace candidate)).isSome then
      .inr (counter + 1, base ++ "_" ++ toString counter)
    else .inl candidate

/-- Look at one name after another until one is free; without a value if that never comes about. -/
def search (t : IndexedTarget) (container : Option TypeId) (nspace base : String) :
    Nat × String →. String :=
  PFun.fix (PFun.lift (t.searchRound container nspace base))

/-- A name for a type of another module that is free inside a container, if the search for it
ends. -/
def uniqueName (t : IndexedTarget) (container : Option TypeId) (nspace name origin : String) :
    Part String :=
  let base := "<" ++ origin ++ ">" ++ name
  t.search container nspace base (2, base)

/-- The outputs that declarations lead to. In between, anything may change but what the types are
called by. -/
inductive Reached : IndexedTarget → Prop
  | start (name : String) (primary : Module) : Reached (start name primary)
  | declare {t : IndexedTarget} (ht : Reached t) (d : TypeDef)
      (hin : ∀ o, d.declaring = some o → o.index < t.module.types.length) :
      Reached (t.declare d).2
  | edit {t : IndexedTarget} (ht : Reached t) (m : Target)
      (hlabels : m.types.map TypeDef.label = t.module.types.map TypeDef.label) :
      Reached { t with module := m }

/-- What is kept from step to step: declaring types stand before the types declared in them, and the
index answers like a search through the types. -/
structure InStep (t : IndexedTarget) : Prop where
  declaring_lt : ∀ {id o : TypeId},
    (t.module.typeDef id).declaring = some o → o.index < id.index
  find?_eq : ∀ q, t.find? q = t.module.lookup? q

namespace InStep

variable {t : IndexedTarget}

theorem start (name : String) (primary : Module) : (start name primary).InStep where
  declaring_lt h := by
    rw [Module.typeDef_of_not_lt (Nat.not_lt_zero _)] at h
    cases h
  find?_eq _ := rfl

section Declare

variable (h : t.InStep) {d : TypeDef}
  (hin : ∀ o, d.declaring = some o → o.index < t.module.types.length)
include h hin

theorem declaring_lt_declare {id o : TypeId}
    (hd : ((t.declare d).2.module.typeDef id).declaring = some o) : o.index < id.index := by
  change ((t.module.addType d).2.typeDef id).declaring = some o at hd
  rw [Module.typeDef_addType _ hin] at hd
  split at hd
  · next hid => exact hid ▸ hin o hd
  · split at hd <;> exact h.declaring_lt hd

theorem qualifiedName_declare {id : TypeId} (hid : id.index < t.module.types.length) :
    Module.qualifiedName (t.declare d).2.module id = Module.qualifiedName t.module id :=
  Module.qualifiedName_eq_of_label (Module.declaringEnds_of_lt h.declaring_lt)
    (Module.declaringEnds_of_lt (h.declaring_lt_declare hin)) h.declaring_lt
    (fun _ ht ↦ Module.typeDef_addType_of_lt _ d TypeDef.label (fun _ _ ↦ rfl) ht) hid

theorem qualifiedName_declare_fst :
    Module.qualifiedName (t.declare d).2.module (t.declare d).1
      = t.module.nameIn d.declaring d.nspace d.name := by
  have hnew : Module.typeDef (t.declare d).2.module (t.declare d).1 = d :=
    (Module.typeDef_addType _ hin _).trans (if_pos rfl)
  rw [(Module.declaringEnds_of_lt (h.declaring_lt_declare hin)).qualifiedName_eq_nameIn, hnew]
  cases hd : d.declaring with
  | none => rfl
  | some o => rw [Target.nameIn, Target.nameIn, h.qualifiedName_declare hin (hin o hd)]

theorem declare : (t.declare d).2.InStep where
  declaring_lt := h.declaring_lt_declare hin
  find?_eq q := by
    have hfind : (t.declare d).2.find? q
        = if q = Module.qualifiedName (t.declare d).2.module (t.declare d).1
          then some (t.declare d).1 else t.find? q := Table.find?_insert _ _ _ _
    have hlookup := Target.lookup?_addType (d := d) (fun _ ↦ h.qualifiedName_declare hin) q
    rw [hfind, h.find?_eq q]
    refine Eq.trans ?_ hlookup.symm
    exact if_congr eq_comm rfl rfl

end Declare

section Edit

variable (h : t.InStep) {m : Target}
  (hlabels : m.types.map TypeDef.label = t.module.types.map TypeDef.label)
include h hlabels

theorem declaring_lt_edit {id o : TypeId} (hd : (m.typeDef id).declaring = some o) :
    o.index < id.index := by
  have hlabel := congrArg Prod.fst (Module.label_typeDef_of_labels hlabels id)
  exact h.declaring_lt (hlabel.symm.trans hd)

theorem qualifiedName_edit {id : TypeId} (hid : id.index < t.module.types.length) :
    Module.qualifiedName m id = Module.qualifiedName t.module id :=
  Module.qualifiedName_eq_of_label (Module.declaringEnds_of_lt h.declaring_lt)
    (Module.declaringEnds_of_lt (h.declaring_lt_edit hlabels)) h.declaring_lt
    (fun id _ ↦ Module.label_typeDef_of_labels hlabels id) hid

theorem edit : InStep { t with module := m } := by
  have hlen : m.types.length = t.module.types.length := by
    simpa using congrArg List.length hlabels
  refine ⟨h.declaring_lt_edit hlabels, fun q ↦ (h.find?_eq q).trans ?_⟩
  rw [← Target.find?_reverse_typeIds fun _ ↦ h.qualifiedName_edit hlabels, Target.lookup?,
    Module.typeIds_congr _ hlen]

end Edit

end InStep

/-- After any declarations the index answers like a search through the types. -/
theorem Reached.inStep {t : IndexedTarget} (h : t.Reached) : t.InStep := by
  induction h with
  | start name primary => exact .start name primary
  | declare _ d hin ih => exact ih.declare hin
  | edit _ m hlabels ih => exact ih.edit hlabels

/-! ## The search

The search is a partial recursion: whether it has a value is what is to be shown. It has one
because candidates are all different and a module has taken only so many of them, and the value is
the first that is free. -/

section Search

variable {t : IndexedTarget} {container : Option TypeId} {nspace : String}

theorem search_eq_of_inl {base found : String} {s : Nat × String}
    (h : t.searchRound container nspace base s = .inl found) :
    t.search container nspace base s = Part.some found :=
  Part.eq_some_iff.mpr (PFun.fix_stop (Part.mem_some_iff.mpr h.symm))

theorem search_eq_of_inr {base : String} {s s' : Nat × String}
    (h : t.searchRound container nspace base s = .inr s') :
    t.search container nspace base s = t.search container nspace base s' :=
  PFun.fix_fwd_eq (Part.mem_some_iff.mpr h.symm)

/-- The search ends at a free candidate when all candidates before it are taken. -/
theorem search_eq_some {name origin : String} {n k : Nat}
    (htaken : ∀ j, k ≤ j → j < k + n →
      (t.find? (t.module.nameIn container nspace (Target.candidate origin name j))).isSome = true)
    (hfree : (t.find?
      (t.module.nameIn container nspace (Target.candidate origin name (k + n)))).isSome = false) :
    t.search container nspace ("<" ++ origin ++ ">" ++ name) (k + 2, Target.candidate origin name k)
      = Part.some (Target.candidate origin name (k + n)) := by
  induction n generalizing k with
  | zero =>
    refine search_eq_of_inl ?_
    rw [searchRound, if_neg (Bool.not_eq_true _ ▸ hfree)]
    rfl
  | succ n ih =>
    have hround : t.searchRound container nspace ("<" ++ origin ++ ">" ++ name)
        (k + 2, Target.candidate origin name k)
          = .inr (k + 1 + 2, Target.candidate origin name (k + 1)) := by
      rw [searchRound, if_pos (htaken k (Nat.le_refl k) (by omega))]
      rfl
    have hshift : k + 1 + n = k + (n + 1) := by omega
    have hrest := ih (k := k + 1) (fun j hj hlt ↦ htaken j (by omega) (by omega))
      (by rw [hshift]; exact hfree)
    rw [search_eq_of_inr hround, hrest, hshift]

/-- The search without a bound ends where the bounded search of the output does. -/
theorem InStep.uniqueName_eq (h : t.InStep) (name origin : String) :
    t.uniqueName container nspace name origin
      = Part.some (t.module.freshName container nspace name origin) := by
  obtain ⟨k, -, hfresh, hfree, htaken⟩ :=
    t.module.freshName_eq_first container nspace name origin
  simp only [Target.isTaken, ← h.find?_eq] at hfree htaken
  rw [hfresh]
  rw [← Nat.zero_add k] at hfree ⊢
  exact search_eq_some (fun j _ hj ↦ htaken j (by omega)) hfree

end Search

/-- A number of the series whose name no type has inside a container, and all before it one has. -/
structure FirstFree (m : Target) (container : Option TypeId) (nspace name origin : String)
    (k : Nat) : Prop where
  free : ∀ id : TypeId, id.index < m.types.length →
    Module.qualifiedName m id ≠ m.nameIn container nspace (Target.candidate origin name k)
  taken : ∀ j < k, ∃ id : TypeId, id.index < m.types.length
    ∧ Module.qualifiedName m id = m.nameIn container nspace (Target.candidate origin name j)

/-- A declaration adds a type under a name that the index does not have, and the index keeps every
type that it has. -/
structure AddsAs (t : IndexedTarget) (d : TypeDef) (qualified : String) : Prop where
  types : (t.declare d).2.module.types.length = t.module.types.length + 1
  name : Module.qualifiedName (t.declare d).2.module (t.declare d).1 = qualified
  others : ∀ id : TypeId, id.index < t.module.types.length →
    Module.qualifiedName (t.declare d).2.module id = Module.qualifiedName t.module id
  entries : (t.declare d).2.names.entries = t.names.entries ++ [(qualified, (t.declare d).1)]
  found : (t.declare d).2.find? qualified = some (t.declare d).1
  kept : ∀ q id, t.find? q = some id → (t.declare d).2.find? q = some id

variable {t : IndexedTarget}

/-- A declaration under a free name displaces nothing. -/
theorem InStep.addsAs (h : t.InStep) {d : TypeDef}
    (hin : ∀ o, d.declaring = some o → o.index < t.module.types.length)
    (hfree : t.find? (t.module.nameIn d.declaring d.nspace d.name) = none) :
    t.AddsAs d (t.module.nameIn d.declaring d.nspace d.name) := by
  have hname := h.qualifiedName_declare_fst hin
  have hnames : (t.declare d).2.names
      = t.names.insert (t.module.nameIn d.declaring d.nspace d.name) (t.declare d).1 := by
    rw [← hname]
    rfl
  have hfind : ∀ q, (t.declare d).2.find? q
      = if q = t.module.nameIn d.declaring d.nspace d.name then some (t.declare d).1
        else t.find? q := by
    intro q
    rw [find?, hnames, Table.find?_insert]
    rfl
  refine ⟨Module.length_types_addType _ d, hname, fun id hid ↦ h.qualifiedName_declare hin hid,
    ?_, ?_, ?_⟩
  · rw [hnames, Table.insert_of_find?_eq_none hfree]
  · rw [hfind, if_pos rfl]
  · intro q id hq
    have hne : q ≠ t.module.nameIn d.declaring d.nspace d.name := by
      rintro rfl
      rw [hfree] at hq
      cases hq
    rw [hfind, if_neg hne, hq]

/-- In an output that declarations lead to, the search for a free name inside a container ends, and
at the first name of the series that no type has there. The bounded search of the output ends at the
same name. A type that is declared by the name that was found displaces none. -/
theorem findsFirstFree_of_reached (ht : t.Reached) {container : Option TypeId}
    (hin : ∀ o, container = some o → o.index < t.module.types.length)
    (nspace name origin : String) :
    ∃ k ≤ t.module.types.length,
      t.uniqueName container nspace name origin = Part.some (Target.candidate origin name k)
      ∧ t.module.freshName container nspace name origin = Target.candidate origin name k
      ∧ FirstFree t.module container nspace name origin k
      ∧ ∀ d : TypeDef, d.declaring = container → (container = none → d.nspace = nspace) →
        d.name = Target.candidate origin name k →
        t.AddsAs d (t.module.nameIn container nspace (Target.candidate origin name k)) := by
  have h := ht.inStep
  obtain ⟨k, hk, hfresh, hfree, htaken⟩ :=
    t.module.freshName_eq_first container nspace name origin
  simp only [Target.isTaken, ← h.find?_eq] at hfree htaken
  refine ⟨k, hk, hfresh ▸ h.uniqueName_eq name origin, hfresh, ⟨?_, fun j hj ↦ ?_⟩, ?_⟩
  · rw [h.find?_eq, Option.isSome_eq_false_iff, Option.isNone_iff_eq_none] at hfree
    exact Target.lookup?_eq_none_iff.mp hfree
  · obtain ⟨id, hid⟩ := Option.isSome_iff_exists.mp (htaken j hj)
    rw [h.find?_eq] at hid
    exact ⟨id, Target.lookup?_lt hid, Target.qualifiedName_of_lookup? hid⟩
  · rintro d rfl hnspace hname
    have hnameIn : t.module.nameIn d.declaring d.nspace d.name
        = t.module.nameIn d.declaring nspace (Target.candidate origin name k) := by
      rw [hname]
      cases hd : d.declaring with
      | none => rw [hnspace hd]
      | some o => rfl
    rw [← hnameIn]
    refine h.addsAs hin ?_
    rw [hnameIn, ← Option.isNone_iff_eq_none, ← Option.isSome_eq_false_iff]
    exact hfree

/-! ## A shelf with a gap -/

/-- A shelf, and what looks like tools of a library on it: the third one is a type beside the shelf,
and there is no fourth. -/
def shelfTypes : List TypeDef := [
  { nspace := "Kit", name := "Shelf" },
  { name := "<Lib>Tool", declaring := some ⟨0⟩ },
  { name := "<Lib>Tool_2", declaring := some ⟨0⟩ },
  { name := "Kit.Shelf/<Lib>Tool_3" },
  { name := "<Lib>Tool_5", declaring := some ⟨0⟩ }]

def shelf : IndexedTarget :=
  shelfTypes.foldl (fun t d ↦ (t.declare d).2) (start "Out" { name := "App" })

theorem reached_shelf : shelf.Reached := by
  refine .declare (.declare (.declare (.declare (.declare (.start _ _) _ ?_) _ ?_) _ ?_) _ ?_) _ ?_
  all_goals rintro o ⟨⟩
  all_goals decide

/-- The search passes the type beside the shelf and ends in the gap. -/
theorem findsFirstFree_shelf :
    shelf.Reached ∧ (∀ o : TypeId, some ⟨0⟩ = some o → o.index < shelf.module.types.length)
      ∧ shelf.uniqueName (some ⟨0⟩) "" "Tool" "Lib" = Part.some "<Lib>Tool_4"
      ∧ FirstFree shelf.module (some ⟨0⟩) "" "Tool" "Lib" 3
      ∧ shelf.AddsAs { name := "<Lib>Tool_4", declaring := some ⟨0⟩ } "Kit.Shelf/<Lib>Tool_4" := by
  have hin : ∀ o : TypeId, some ⟨0⟩ = some o → o.index < shelf.module.types.length := by
    rintro o ⟨⟩
    decide
  obtain ⟨k, -, hunique, hfresh, hfirst, hadds⟩ :=
    findsFirstFree_of_reached reached_shelf hin "" "Tool" "Lib"
  have hfourth : shelf.module.freshName (some ⟨0⟩) "" "Tool" "Lib"
      = Target.candidate "Lib" "Tool" 3 := by decide +kernel
  obtain rfl : k = 3 := Target.candidate_injective (hfresh.symm.trans hfourth)
  exact ⟨reached_shelf, hin, hunique, hfirst, hadds _ rfl nofun rfl⟩

end IndexedTarget

end ModuleLinker
