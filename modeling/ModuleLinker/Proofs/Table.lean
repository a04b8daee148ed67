import Mathlib.Data.List.Nodup
import Mathlib.Logic.Basic
import ModuleLinker.Table

/-!
# Keys of a table

Where keys are distinct, looking a key up and finding its entry are the same. A table that only
takes new keys keeps the entries that it has in front. A table that is written whenever a list gets
a new key is an index of the list: it answers like a search.
-/

namespace ModuleLinker.Table

variable {κ ν : Type}

section Keys

variable [DecidableEq κ]

theorem find?_eq_none_iff {t : Table κ ν} {k : κ} : t.find? k = none ↔ k ∉ t.keys := by
  simp only [find?, List.lookup_eq_none_iff, keys, List.mem_map, bne_iff_ne, ne_eq, not_exists,
    not_and]
  exact forall₂_congr fun e _ ↦ not_congr eq_comm

/-- Where keys are distinct, what stands beside a key is what is found under it. -/
theorem find?_eq_some_iff_mem {t : Table κ ν} (h : t.keys.Nodup) {k : κ} {v : ν} :
    t.find? k = some v ↔ (k, v) ∈ t.entries := by
  constructor
  · exact mem_entries_of_find?
  · intro hmem
    obtain ⟨front, back, heq⟩ := List.append_of_mem hmem
    refine List.lookup_eq_some_iff.mpr ⟨front, back, heq, fun e he ↦ ?_⟩
    rw [keys, heq, List.map_append] at h
    have hne : e.1 ≠ k := (List.nodup_append.mp h).2.2 e.1 (List.mem_map_of_mem he) k (by simp)
    simpa using hne.symm

theorem insertNew_of_find?_eq_none {t : Table κ ν} {k : κ} (h : t.find? k = none) (v : ν) :
    t.insertNew k v = ⟨t.entries ++ [(k, v)]⟩ := by
  simp [insertNew, contains, h]

theorem insert_of_find?_eq_none {t : Table κ ν} {k : κ} (h : t.find? k = none) (v : ν) :
    t.insert k v = ⟨t.entries ++ [(k, v)]⟩ := by
  obtain ⟨entries⟩ := t
  have hnew : k ∉ entries.map Prod.fst := find?_eq_none_iff.mp h
  clear h
  induction entries with
  | nil => rfl
  | cons e rest ih =>
    simp only [List.map_cons, List.mem_cons, not_or] at hnew
    obtain ⟨hne, hrest⟩ := hnew
    rw [insert_cons, if_neg hne, ih hrest]
    rfl

theorem contains_iff_mem_keys {t : Table κ ν} {k : κ} : t.contains k = true ↔ k ∈ t.keys := by
  rw [contains, Option.isSome_iff_ne_none, ne_eq, find?_eq_none_iff, not_not]

end Keys

/-! ## Tables that get entries

The entries of a table stand in the order in which they were made, which is how the first of
several can be told from the others later on. -/

/-- A table has got entries behind those it had, and keys that are distinct stay so. -/
structure Appends (t t' : Table κ ν) : Prop where
  before : t.entries <+: t'.entries
  distinct : t.keys.Nodup → t'.keys.Nodup

theorem Appends.refl (t : Table κ ν) : t.Appends t := ⟨List.prefix_refl _, id⟩

theorem Appends.trans {t t' t'' : Table κ ν} (h : t.Appends t') (h' : t'.Appends t'') :
    t.Appends t'' :=
  ⟨h.before.trans h'.before, h'.distinct ∘ h.distinct⟩

theorem appends_insertNew [DecidableEq κ] (t : Table κ ν) (k : κ) (v : ν) :
    t.Appends (t.insertNew k v) := by
  by_cases hk : t.find? k = none
  · rw [insertNew_of_find?_eq_none hk]
    refine ⟨List.prefix_append _ _, fun hnodup ↦ ?_⟩
    have hkeys : (⟨t.entries ++ [(k, v)]⟩ : Table κ ν).keys = t.keys ++ [k] := by simp [keys]
    rw [hkeys, ← List.concat_eq_append]
    exact hnodup.concat (find?_eq_none_iff.mp hk)
  · have hknown : t.contains k = true := Option.isSome_iff_ne_none.mpr hk
    rw [insertNew, if_pos hknown]
    exact .refl t

/-! ## Tables of lists

Elements are added to the list of a key. Counted together with their keys they are one more,
whichever list they go to. -/

/-- All elements of the lists in a table, each with its key. -/
def spread (t : Table κ (List ν)) : List (κ × ν) :=
  t.entries.flatMap fun e ↦ e.2.map fun x ↦ (e.1, x)

theorem perm_spread_insert [DecidableEq κ] (t : Table κ (List ν)) (k : κ) (x : ν) :
    (t.insert k ((t.find? k).getD [] ++ [x])).spread.Perm ((k, x) :: t.spread) := by
  obtain ⟨entries⟩ := t
  induction entries with
  | nil => exact .refl _
  | cons e rest ih =>
    obtain ⟨k', known⟩ := e
    have hfind : (⟨(k', known) :: rest⟩ : Table κ (List ν)).find? k
        = if k = k' then some known else (⟨rest⟩ : Table κ (List ν)).find? k := by
      by_cases hk : k = k'
      · simp [find?, hk]
      · simp [find?, List.lookup_cons, beq_eq_false_iff_ne.mpr hk, hk]
    rw [insert_cons, hfind]
    by_cases hk : k = k'
    · subst hk
      rw [if_pos rfl, if_pos rfl]
      simp only [spread, Option.getD_some, List.flatMap_cons, List.map_append, List.map_singleton,
        List.append_assoc, List.singleton_append]
      exact List.perm_middle
    · rw [if_neg hk, if_neg hk]
      exact (ih.append_left _).trans List.perm_middle

/-! ## Indexes

An index is built along with a list: the list gets an element at its end, and the table gets the
position. As long as no element is entered twice, the table says where each one stands. -/

section Indexes

variable [DecidableEq κ] {t : Table κ ν} {position : Nat → ν} {keys : List κ}

/-- A table finds every key of a list at its position, and nothing else. The keys are distinct, so
each has one position. -/
structure Indexes (t : Table κ ν) (position : Nat → ν) (keys : List κ) : Prop where
  nodup : keys.Nodup
  find?_eq : ∀ k, t.find? k = (keys.findIdx? (· = k)).map position

namespace Indexes

theorem nil (position : Nat → ν) : (empty : Table κ ν).Indexes position [] :=
  ⟨List.nodup_nil, fun _ ↦ rfl⟩

theorem find?_eq_none_iff (h : t.Indexes position keys) {k : κ} :
    t.find? k = none ↔ k ∉ keys := by
  rw [h.find?_eq, Option.map_eq_none_iff, List.findIdx?_eq_none_iff]
  constructor
  · exact fun hall hk ↦ by simpa using hall k hk
  · exact fun hk a ha ↦ decide_eq_false fun heq ↦ hk (heq ▸ ha)

theorem find?_eq_some_iff (h : t.Indexes position keys) (hinj : Function.Injective position)
    {k : κ} {i : Nat} : t.find? k = some (position i) ↔ keys[i]? = some k := by
  rw [h.find?_eq, Option.map_eq_some_iff]
  constructor
  · rintro ⟨j, hj, hji⟩
    obtain ⟨hlt, hk, -⟩ := List.findIdx?_eq_some_iff_getElem.mp (hinj hji ▸ hj)
    rw [List.getElem?_eq_getElem hlt, of_decide_eq_true hk]
  · intro hk
    obtain ⟨hlt, rfl⟩ := List.getElem?_eq_some_iff.mp hk
    refine ⟨i, List.findIdx?_eq_some_iff_getElem.mpr ⟨hlt, decide_eq_true rfl, fun j hj ↦ ?_⟩, rfl⟩
    simpa using fun heq ↦ Nat.ne_of_lt hj
      ((List.Nodup.getElem_inj_iff h.nodup).mp heq)

theorem insert (h : t.Indexes position keys) {k : κ} (hnew : t.find? k = none) :
    (t.insert k (position keys.length)).Indexes position (keys ++ [k]) := by
  have hnot := h.find?_eq_none_iff.mp hnew
  refine ⟨?_, fun k' ↦ ?_⟩
  · rw [← List.concat_eq_append]
    exact h.nodup.concat hnot
  · rw [find?_insert, List.findIdx?_append, h.find?_eq]
    by_cases hk : k' = k
    · subst hk
      have hnone : keys.findIdx? (· = k') = none := by
        rwa [h.find?_eq, Option.map_eq_none_iff] at hnew
      simp [hnone]
    · have hlast : [k].findIdx? (· = k') = none := by simpa using Ne.symm hk
      rw [if_neg hk, hlast, Option.map_none, Option.or_none]

end Indexes

end Indexes

/-! ## Other keys and values -/

section Map

variable {κ' ν' : Type} {f : κ → κ'} {g : ν → ν'}

/-- The table with other keys and values in the same places. -/
def map (f : κ → κ') (g : ν → ν') (t : Table κ ν) : Table κ' ν' := ⟨t.entries.map (Prod.map f g)⟩

variable [DecidableEq κ] [DecidableEq κ'] (hf : Function.Injective f)
include hf

theorem find?_map (t : Table κ ν) (k : κ) : (t.map f g).find? (f k) = (t.find? k).map g := by
  obtain ⟨entries⟩ := t
  change (entries.map (Prod.map f g)).lookup (f k) = (entries.lookup k).map g
  induction entries with
  | nil => rfl
  | cons e rest ih =>
    obtain ⟨k', v⟩ := e
    rw [List.map_cons, Prod.map_apply, List.lookup_cons, List.lookup_cons, ih]
    by_cases hk : k = k'
    · simp [hk]
    · simp [beq_eq_false_iff_ne.mpr hk, beq_eq_false_iff_ne.mpr (hf.ne hk)]

theorem contains_map (t : Table κ ν) (k : κ) : (t.map f g).contains (f k) = t.contains k := by
  rw [contains, contains, find?_map hf, Option.isSome_map]

theorem insertNew_map (t : Table κ ν) (k : κ) (v : ν) :
    (t.map f g).insertNew (f k) (g v) = (t.insertNew k v).map f g := by
  unfold insertNew
  rw [contains_map hf]
  split
  · rfl
  · simp [map]

theorem insert_map (t : Table κ ν) (k : κ) (v : ν) :
    (t.map f g).insert (f k) (g v) = (t.insert k v).map f g := by
  obtain ⟨entries⟩ := t
  induction entries with
  | nil => rfl
  | cons e rest ih =>
    change (⟨Prod.map f g e :: rest.map (Prod.map f g)⟩ : Table κ' ν').insert (f k) (g v) = _
    rw [insert_cons, insert_cons, Prod.map_fst]
    by_cases hk : k = e.1
    · rw [if_pos hk, if_pos (congrArg f hk)]
      rfl
    · rw [if_neg hk, if_neg (hf.ne hk)]
      exact congrArg (fun t : Table κ' ν' ↦ (⟨Prod.map f g e :: t.entries⟩ : Table κ' ν')) ih

end Map

end ModuleLinker.Table
