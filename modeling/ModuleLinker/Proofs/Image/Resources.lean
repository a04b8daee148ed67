import Mathlib.Data.List.Nodup
import ModuleLinker.Image.Resource

/-!
# Reading resource trees

A tree is read by paths of keys. What a change of one entry does to a lookup is said by one equation
for each kind of change. In a tree without repeated keys no payload is hidden behind another, so
going through all its nodes and looking them up by their paths come to the same.
-/

namespace ModuleLinker

namespace ResourceDirectory

/-- The payload at a path. -/
def leaf? (d : ResourceDirectory) : List ResourceKey → Option (List UInt8)
  | [] => none
  | [key] =>
    match d.get? key with
    | some (.data bytes) => some bytes
    | _ => none
  | key :: next :: rest =>
    match d.get? key with
    | some (.directory entries) => leaf? entries (next :: rest)
    | _ => none

variable (d : ResourceDirectory) (key key' : ResourceKey) (node : ResourceNode)

theorem get?_cons (entries : ResourceDirectory) :
    get? ((key, node) :: entries) key' = if key' = key then some node else entries.get? key' := by
  rw [get?, List.lookup_cons]
  by_cases h : key' = key
  · simp [h]
  · simp [beq_eq_false_iff_ne.mpr h, h, get?]

theorem get?_replace :
    (d.replace key node).get? key'
      = if key' = key then (d.get? key).map fun _ ↦ node else d.get? key' := by
  induction d with
  | nil => simp [replace, get?]
  | cons e rest ih =>
    obtain ⟨k, n⟩ := e
    unfold replace
    by_cases hk : k = key
    · subst hk
      rw [if_pos rfl, get?_cons, get?_cons, get?_cons]
      split <;> simp
    · rw [if_neg hk, get?_cons, get?_cons, get?_cons, ih, if_neg (Ne.symm hk)]
      by_cases hkey : key' = key
      · subst hkey
        rw [if_neg (Ne.symm hk), if_pos rfl, if_pos rfl]
      · rw [if_neg hkey, if_neg hkey]

theorem get?_insert :
    (d.insert key node).get? key' = if key' = key then some node else d.get? key' := by
  unfold insert
  cases hknown : d.get? key with
  | some known =>
    dsimp only
    rw [get?_replace, hknown]
    rfl
  | none =>
    dsimp only
    rw [get?, List.lookup_append, ← get?]
    by_cases h : key' = key
    · subst h
      rw [hknown, if_pos rfl]
      simp
    · rw [if_neg h]
      simp [List.lookup_cons, beq_eq_false_iff_ne.mpr h]

theorem keys_replace : (d.replace key node).map Prod.fst = d.map Prod.fst := by
  induction d with
  | nil => rfl
  | cons e rest ih =>
    unfold replace
    split
    · rfl
    · rw [List.map_cons, List.map_cons, ih]

theorem get?_eq_none {d : ResourceDirectory} {key : ResourceKey} :
    d.get? key = none ↔ key ∉ d.map Prod.fst := by
  induction d with
  | nil => simp [get?]
  | cons e rest ih =>
    obtain ⟨k, n⟩ := e
    rw [get?_cons]
    by_cases h : key = k
    · simp [h]
    · simp [h, ih]

theorem mem_keys_of_get? {d : ResourceDirectory} {key : ResourceKey} {node : ResourceNode}
    (h : d.get? key = some node) : key ∈ d.map Prod.fst := by
  by_contra hno
  rw [get?_eq_none.mpr hno] at h
  cases h

end ResourceDirectory

mutual

/-- No directory of a tree lists a key twice. -/
def ResourceNode.uniqueKeys : ResourceNode → Bool
  | .data _ => true
  | .directory entries => decide (entries.map Prod.fst).Nodup && uniqueKeysBelow entries

def ResourceNode.uniqueKeysOf : ResourceKey × ResourceNode → Bool
  | (_, node) => node.uniqueKeys

def ResourceNode.uniqueKeysBelow : ResourceDirectory → Bool
  | [] => true
  | entry :: rest => uniqueKeysOf entry && uniqueKeysBelow rest

end

namespace ResourceDirectory

/-- No level of a tree lists a key twice. -/
def UniqueKeys (d : ResourceDirectory) : Prop := (ResourceNode.directory d).uniqueKeys = true

instance (d : ResourceDirectory) : Decidable d.UniqueKeys :=
  inferInstanceAs (Decidable (_ = true))

theorem UniqueKeys.nodup {d : ResourceDirectory} (h : d.UniqueKeys) : (d.map Prod.fst).Nodup := by
  rw [UniqueKeys, ResourceNode.uniqueKeys, Bool.and_eq_true] at h
  exact of_decide_eq_true h.1

theorem uniqueKeysBelow_iff {d : ResourceDirectory} :
    ResourceNode.uniqueKeysBelow d = true ↔ ∀ e ∈ d, e.2.uniqueKeys = true := by
  induction d with
  | nil => simp [ResourceNode.uniqueKeysBelow]
  | cons e rest ih =>
    obtain ⟨k, n⟩ := e
    rw [ResourceNode.uniqueKeysBelow, Bool.and_eq_true, ih, List.forall_mem_cons,
      ResourceNode.uniqueKeysOf]

theorem uniqueKeys_iff {d : ResourceDirectory} :
    d.UniqueKeys ↔ (d.map Prod.fst).Nodup ∧ ∀ e ∈ d, e.2.uniqueKeys = true := by
  rw [UniqueKeys, ResourceNode.uniqueKeys, Bool.and_eq_true, decide_eq_true_eq, uniqueKeysBelow_iff]

theorem UniqueKeys.below {d : ResourceDirectory} (h : d.UniqueKeys) :
    ResourceNode.uniqueKeysBelow d = true :=
  uniqueKeysBelow_iff.mpr (uniqueKeys_iff.mp h).2

theorem mem_of_mem_replace {d : ResourceDirectory} {key : ResourceKey} {node : ResourceNode}
    {e : ResourceKey × ResourceNode} (h : e ∈ d.replace key node) : e ∈ d ∨ e.2 = node := by
  induction d with
  | nil => cases h
  | cons e' rest ih =>
    unfold replace at h
    split at h
    · rcases List.mem_cons.mp h with rfl | h
      · exact .inr rfl
      · exact .inl (List.mem_cons_of_mem _ h)
    · rcases List.mem_cons.mp h with rfl | h
      · exact .inl (List.mem_cons_self ..)
      · exact (ih h).imp_left (List.mem_cons_of_mem _)

theorem UniqueKeys.replace {d : ResourceDirectory} (h : d.UniqueKeys) (key : ResourceKey)
    {node : ResourceNode} (hnode : node.uniqueKeys = true) : (d.replace key node).UniqueKeys := by
  obtain ⟨hkeys, hbelow⟩ := uniqueKeys_iff.mp h
  refine uniqueKeys_iff.mpr ⟨by rwa [keys_replace], fun e he ↦ ?_⟩
  rcases mem_of_mem_replace he with hold | hnew
  · exact hbelow e hold
  · rwa [hnew]

theorem keys_insert (d : ResourceDirectory) (key : ResourceKey) (node : ResourceNode) :
    (d.insert key node).map Prod.fst
      = if key ∈ d.map Prod.fst then d.map Prod.fst else d.map Prod.fst ++ [key] := by
  unfold insert
  cases hknown : d.get? key with
  | none =>
    rw [if_neg (get?_eq_none.mp hknown)]
    simp
  | some known =>
    rw [if_pos (mem_keys_of_get? hknown)]
    dsimp only
    exact keys_replace d key node

theorem UniqueKeys.insert {d : ResourceDirectory} (h : d.UniqueKeys) {key : ResourceKey}
    (hkey : d.get? key = none) {node : ResourceNode} (hnode : node.uniqueKeys = true) :
    (d.insert key node).UniqueKeys := by
  obtain ⟨hkeys, hbelow⟩ := uniqueKeys_iff.mp h
  have hnew := get?_eq_none.mp hkey
  refine uniqueKeys_iff.mpr ⟨?_, fun e he ↦ ?_⟩
  · rw [keys_insert, if_neg hnew, ← List.concat_eq_append]
    exact List.Nodup.concat hnew hkeys
  · rw [ResourceDirectory.insert, hkey] at he
    rcases List.mem_append.mp he with hold | hlast
    · exact hbelow e hold
    · rwa [List.mem_singleton.mp hlast]

theorem uniqueKeys_of_get? {d : ResourceDirectory} (h : ResourceNode.uniqueKeysBelow d = true)
    {key : ResourceKey} {node : ResourceNode} (hnode : d.get? key = some node) :
    node.uniqueKeys = true := by
  induction d with
  | nil => cases hnode
  | cons e rest ih =>
    obtain ⟨k, n⟩ := e
    rw [ResourceNode.uniqueKeysBelow, ResourceNode.uniqueKeysOf, Bool.and_eq_true] at h
    rw [get?_cons] at hnode
    split at hnode
    · cases hnode
      exact h.1
    · exact ih h.2 hnode

end ResourceDirectory

/-! ## Nodes at paths

A path is a list of keys, and looking it up goes down one directory for each. A payload has
nothing below it, so a lookup that has met one fails. -/

/-- The node at a path. -/
def ResourceNode.at? : ResourceNode → List ResourceKey → Option ResourceNode
  | node, [] => some node
  | .data _, _ :: _ => none
  | .directory entries, key :: rest =>
    (ResourceDirectory.get? entries key).bind fun node ↦ node.at? rest

/-- The node at a path of a tree. -/
def ResourceDirectory.at? (d : ResourceDirectory) (path : List ResourceKey) :
    Option ResourceNode :=
  (ResourceNode.directory d).at? path

namespace ResourceNode

@[simp] theorem at?_nil (node : ResourceNode) : node.at? [] = some node := by
  cases node <;> rfl

@[simp] theorem at?_data_cons (bytes : List UInt8) (key : ResourceKey) (rest : List ResourceKey) :
    (data bytes).at? (key :: rest) = none := rfl

theorem at?_directory_cons (entries : ResourceDirectory) (key : ResourceKey)
    (rest : List ResourceKey) : (directory entries).at? (key :: rest)
      = (ResourceDirectory.get? entries key).bind fun node ↦ node.at? rest := rfl

theorem at?_append (node : ResourceNode) (path rest : List ResourceKey) :
    node.at? (path ++ rest) = (node.at? path).bind fun n ↦ n.at? rest := by
  induction path generalizing node with
  | nil => simp
  | cons key path ih =>
    cases node with
    | data bytes => rfl
    | directory entries =>
      rw [List.cons_append, at?_directory_cons, at?_directory_cons, Option.bind_assoc]
      exact Option.bind_congr fun n _ ↦ ih n

theorem at?_data {bytes : List UInt8} {path : List ResourceKey} {node : ResourceNode}
    (h : (data bytes).at? path = some node) : path = [] := by
  cases path with
  | nil => rfl
  | cons _ _ => cases h

end ResourceNode

theorem ResourceNode.uniqueKeys_at? {node n : ResourceNode} (h : node.uniqueKeys = true)
    {path : List ResourceKey} (hn : node.at? path = some n) : n.uniqueKeys = true := by
  induction path generalizing node with
  | nil =>
    rw [at?_nil] at hn
    cases hn
    exact h
  | cons key rest ih =>
    cases node with
    | data bytes => cases hn
    | directory entries =>
      obtain ⟨known, hknown, hrest⟩ := Option.bind_eq_some_iff.mp hn
      exact ih (ResourceDirectory.uniqueKeys_of_get? (ResourceDirectory.UniqueKeys.below h) hknown)
        hrest

theorem ResourceDirectory.leaf?_eq_some {d : ResourceDirectory} {path : List ResourceKey}
    {bytes : List UInt8} : d.leaf? path = some bytes ↔ d.at? path = some (.data bytes) := by
  unfold at?
  induction path generalizing d with
  | nil => simp [leaf?]
  | cons key rest ih =>
    rw [ResourceNode.at?_directory_cons]
    cases rest with
    | nil =>
      unfold leaf?
      cases d.get? key with
      | none => simp
      | some node => cases node <;> simp
    | cons next rest =>
      unfold leaf?
      cases d.get? key with
      | none => simp
      | some node =>
        cases node with
        | data _ => simp
        | directory entries => exact ih

/-! ## All nodes -/

mutual

/-- The nodes of a tree with their paths, each before those below it. -/
def ResourceNode.nodes : ResourceNode → List (List ResourceKey × ResourceNode)
  | .data bytes => [([], .data bytes)]
  | .directory entries => ([], .directory entries) :: nodesBelow entries

def ResourceNode.nodesOf : ResourceKey × ResourceNode → List (List ResourceKey × ResourceNode)
  | (key, node) => node.nodes.map fun (path, n) ↦ (key :: path, n)

def ResourceNode.nodesBelow : ResourceDirectory → List (List ResourceKey × ResourceNode)
  | [] => []
  | entry :: rest => nodesOf entry ++ nodesBelow rest

end

namespace ResourceNode

theorem mem_nodesBelow {entries : ResourceDirectory} {x : List ResourceKey × ResourceNode} :
    x ∈ nodesBelow entries
      ↔ ∃ e ∈ entries, ∃ y ∈ e.2.nodes, x = (e.1 :: y.1, y.2) := by
  induction entries with
  | nil => simp [nodesBelow]
  | cons e rest ih =>
    obtain ⟨k, n⟩ := e
    have hfirst : x ∈ nodesOf (k, n) ↔ ∃ y ∈ n.nodes, x = (k :: y.1, y.2) := by
      rw [nodesOf, List.mem_map]
      exact exists_congr fun y ↦ and_congr_right fun _ ↦ eq_comm
    rw [nodesBelow, List.mem_append, ih, hfirst]
    simp only [List.mem_cons, exists_eq_or_imp]

theorem mem_nodes_of_at? {path : List ResourceKey} {node n : ResourceNode}
    (h : node.at? path = some n) : (path, n) ∈ node.nodes := by
  induction path generalizing node with
  | nil =>
    rw [at?_nil] at h
    cases h
    cases n <;> simp [nodes]
  | cons key rest ih =>
    cases node with
    | data bytes => cases h
    | directory entries =>
      rw [at?_directory_cons] at h
      obtain ⟨known, hknown, hrest⟩ := Option.bind_eq_some_iff.mp h
      obtain ⟨front, back, heq, -⟩ := List.lookup_eq_some_iff.mp hknown
      refine List.mem_cons_of_mem _ (mem_nodesBelow.mpr ⟨(key, known), ?_, _, ih hrest, rfl⟩)
      rw [heq]
      simp

end ResourceNode

end ModuleLinker
