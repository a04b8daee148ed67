/-!
# Tables in order of arrival

Every lookup structure of a link whose order can reach the output is a `Table`: pairs of a key and
a value, in the order in which the keys arrived. Two ways of writing are told apart. `insert` lets
the last write win and leaves a known key in its place; `insertNew` lets the first write win, which
is what makes the import order the priority order of same-named symbols.

Both are read through one view, `find?`, and each has one equation for it.
-/

namespace ModuleLinker

/-- Pairs of a key and a value, in the order in which the keys arrived. -/
structure Table (κ ν : Type) where
  /-- The pairs, oldest key first. -/
  entries : List (κ × ν) := []
deriving DecidableEq

namespace Table

variable {κ ν : Type} [DecidableEq κ]

/-- The table without entries. -/
def empty : Table κ ν := {}

/-- The value stored under a key. -/
def find? (t : Table κ ν) (k : κ) : Option ν := t.entries.lookup k

/-- Whether a key has a value. -/
def contains (t : Table κ ν) (k : κ) : Bool := (t.find? k).isSome

/-- The keys, oldest first. -/
def keys (t : Table κ ν) : List κ := t.entries.map Prod.fst

/-- The number of entries. -/
def size (t : Table κ ν) : Nat := t.entries.length

/-- Replace the value of the first pair with the key, or append a pair. -/
private def upsertEntry (k : κ) (v : ν) : List (κ × ν) → List (κ × ν)
  | [] => [(k, v)]
  | e :: rest => if k = e.1 then (k, v) :: rest else e :: upsertEntry k v rest

/-- The last write wins; a known key keeps its place. -/
def insert (t : Table κ ν) (k : κ) (v : ν) : Table κ ν := ⟨upsertEntry k v t.entries⟩

theorem insert_nil (k : κ) (v : ν) : (⟨[]⟩ : Table κ ν).insert k v = ⟨[(k, v)]⟩ := rfl

theorem insert_cons (e : κ × ν) (rest : List (κ × ν)) (k : κ) (v : ν) :
    (⟨e :: rest⟩ : Table κ ν).insert k v
      = if k = e.1 then ⟨(k, v) :: rest⟩ else ⟨e :: (insert ⟨rest⟩ k v).entries⟩ := by
  unfold insert
  rw [upsertEntry]
  split <;> rfl

/-- The first write wins: a known key keeps its value. -/
def insertNew (t : Table κ ν) (k : κ) (v : ν) : Table κ ν :=
  if t.contains k then t else ⟨t.entries ++ [(k, v)]⟩

/-! ## The view -/

@[simp] theorem find?_empty (k : κ) : (empty : Table κ ν).find? k = none := rfl

private theorem lookup_cons_ite (k : κ) (e : κ × ν) (es : List (κ × ν)) :
    (e :: es).lookup k = if k = e.1 then some e.2 else es.lookup k := by
  rw [show e = (e.1, e.2) from rfl, List.lookup_cons]
  by_cases h : k = e.1
  · simp [h]
  · simp [beq_eq_false_iff_ne.mpr h, h]

private theorem lookup_upsertEntry (k k' : κ) (v : ν) (es : List (κ × ν)) :
    (upsertEntry k v es).lookup k' = if k' = k then some v else es.lookup k' := by
  induction es with
  | nil => simp only [upsertEntry, lookup_cons_ite]
  | cons e rest ih =>
    unfold upsertEntry
    by_cases hk : k = e.1
    · rw [if_pos hk, lookup_cons_ite, lookup_cons_ite, ← hk]
      split <;> rfl
    · rw [if_neg hk, lookup_cons_ite, lookup_cons_ite, ih]
      by_cases h : k' = k
      · subst h
        simp [hk]
      · simp [h]

theorem find?_insert (t : Table κ ν) (k k' : κ) (v : ν) :
    (t.insert k v).find? k' = if k' = k then some v else t.find? k' :=
  lookup_upsertEntry k k' v t.entries

theorem find?_insertNew (t : Table κ ν) (k k' : κ) (v : ν) :
    (t.insertNew k v).find? k' = if k' = k then some ((t.find? k).getD v) else t.find? k' := by
  unfold insertNew contains
  cases hk : t.find? k with
  | some w => by_cases h : k' = k <;> simp [h, hk]
  | none =>
    have happ : (⟨t.entries ++ [(k, v)]⟩ : Table κ ν).find? k'
        = (t.find? k').or (if k' = k then some v else none) := by
      simp [find?, List.lookup_append, lookup_cons_ite]
    by_cases h : k' = k
    · subst h
      simp [happ, hk]
    · simp [happ, h]

theorem contains_insertNew (t : Table κ ν) (k k' : κ) (v : ν) :
    (t.insertNew k v).contains k' = (decide (k' = k) || t.contains k') := by
  by_cases h : k' = k <;> simp [contains, find?_insertNew, h]

/-- A first-write table never changes what is already there. -/
theorem find?_insertNew_of_contains {t : Table κ ν} {k' : κ} {w : ν} (h : t.find? k' = some w)
    (k : κ) (v : ν) : (t.insertNew k v).find? k' = some w := by
  rw [find?_insertNew]
  split
  · next heq => subst heq; simp [h]
  · exact h

theorem mem_entries_of_find? {t : Table κ ν} {k : κ} {v : ν} (h : t.find? k = some v) :
    (k, v) ∈ t.entries := by
  obtain ⟨front, back, heq, -⟩ := List.lookup_eq_some_iff.mp h
  rw [heq]
  exact List.mem_append_right _ (List.mem_cons_self ..)

theorem mem_keys_of_find? {t : Table κ ν} {k : κ} {v : ν} (h : t.find? k = some v) : k ∈ t.keys :=
  List.mem_map_of_mem (mem_entries_of_find? h)

/-- A table whose entries are written under other keys is found under those, if no two keys become
one. -/
theorem find?_foldl_insert {κ' : Type} [DecidableEq κ'] {f : κ → κ'} {entries : List (κ × ν)}
    (hnodup : (entries.map Prod.fst).Nodup) {k : κ} (hinj : ∀ e ∈ entries, f k = f e.1 → k = e.1)
    (t : Table κ' ν) : (entries.foldl (fun t e ↦ t.insert (f e.1) e.2) t).find? (f k)
      = (entries.lookup k).or (t.find? (f k)) := by
  induction entries generalizing t with
  | nil => rfl
  | cons e rest ih =>
    obtain ⟨hnew, hrest⟩ := List.nodup_cons.mp hnodup
    rw [List.foldl_cons, ih hrest fun e' he' ↦ hinj e' (List.mem_cons_of_mem e he'),
      lookup_cons_ite, find?_insert]
    by_cases hk : k = e.1
    · have hnone : rest.lookup k = none := by
        cases hv : rest.lookup k with
        | none => rfl
        | some v =>
          have hmem : k ∈ rest.map Prod.fst := mem_keys_of_find? (t := ⟨rest⟩) hv
          exact absurd (hk ▸ hmem) hnew
      rw [if_pos (congrArg f hk), if_pos hk, hnone]
      rfl
    · rw [if_neg fun heq ↦ hk (hinj e (List.mem_cons_self ..) heq), if_neg hk]

theorem keys_insert (t : Table κ ν) (k : κ) (v : ν) :
    (t.insert k v).keys = if k ∈ t.keys then t.keys else t.keys ++ [k] := by
  have hkeys : ∀ es : List (κ × ν), (upsertEntry k v es).map Prod.fst
      = if k ∈ es.map Prod.fst then es.map Prod.fst else es.map Prod.fst ++ [k] := by
    intro es
    induction es with
    | nil => rfl
    | cons e rest ih =>
      unfold upsertEntry
      by_cases hk : k = e.1
      · simp [hk]
      · rw [if_neg hk, List.map_cons, ih]
        by_cases hmem : k ∈ rest.map Prod.fst
        · simp [hmem]
        · simp [hmem, hk]
  exact hkeys t.entries

theorem nodup_keys_insert {t : Table κ ν} (h : t.keys.Nodup) (k : κ) (v : ν) :
    (t.insert k v).keys.Nodup := by
  rw [keys_insert]
  split
  · exact h
  · next hk =>
    refine List.nodup_append.mpr ⟨h, by simp, fun a ha b hb ↦ ?_⟩
    rw [List.mem_singleton.mp hb]
    exact fun heq ↦ hk (heq ▸ ha)

end Table

end ModuleLinker
