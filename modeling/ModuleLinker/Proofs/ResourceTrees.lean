import ModuleLinker.Proofs.ResourceMerge

/-!
# Nothing is lost silently

What a merge makes of two trees does not depend on what was found before, and it can be read off
them path by path. Where the kept tree has a node and the added one has none, or the other way
round, the node is there as it was; where both have one, the two are merged, and only payloads of
the appended blob become something else by that. A node that is refused is found in both trees at
its path, and for each there is a warning. So every payload of the added tree can be accounted for:
it is there, or it was appended, or it belongs to the version metadata, or a warning names the place
where something else stood.
-/

namespace ModuleLinker

/-! ## The merged tree

What was found before is carried through a merge and never asked. So the tree that comes out is a
function of the two trees, and can be computed without it. -/

namespace ResourceOwner

variable (o : ResourceOwner)

/-- What merging a node into another one makes of that. -/
def mergedNode (path : List ResourceKey) (kept added : ResourceNode) : ResourceNode :=
  (o.mergeNode path kept {} added).1

/-- What merging makes of two nodes where either may be missing. -/
def mergedOption (path : List ResourceKey) : (kept added : Option ResourceNode) →
    Option ResourceNode
  | none, added => added
  | some kept, none => some kept
  | some kept, some added => some (o.mergedNode path kept added)

mutual

theorem fst_mergeNode (path : List ResourceKey) (kept : ResourceNode) (f : ResourceFindings) :
    (added : ResourceNode) → (o.mergeNode path kept f added).1 = o.mergedNode path kept added
  | .data added => by
    cases kept with
    | data bytes =>
      rw [mergedNode, mergeNode, mergeNode]
      dsimp only
      unfold mergeData
      split
      · rfl
      · split <;> rfl
    | directory entries => rfl
  | .directory added => by
    cases kept with
    | data bytes => rfl
    | directory entries =>
      rw [mergedNode, mergeNode, mergeNode]
      dsimp only
      rw [fst_mergeLevel path entries f {} added]

theorem fst_mergeEntry (path : List ResourceKey) (kept : ResourceDirectory)
    (f g : ResourceFindings) : (added : ResourceKey × ResourceNode) →
    (o.mergeEntry path kept f added).1 = (o.mergeEntry path kept g added).1
  | (key, node) => by
    rw [mergeEntry, mergeEntry]
    cases kept.get? key with
    | none => rfl
    | some known =>
      dsimp only
      rw [fst_mergeNode _ known f node, fst_mergeNode _ known g node]

theorem fst_mergeLevel (path : List ResourceKey) (kept : ResourceDirectory)
    (f g : ResourceFindings) : (added : ResourceDirectory) →
    (o.mergeLevel path kept f added).1 = (o.mergeLevel path kept g added).1
  | [] => by rw [mergeLevel, mergeLevel]
  | entry :: rest => by
    rw [mergeLevel, mergeLevel]
    dsimp only
    rw [fst_mergeEntry path kept f g entry]
    exact fst_mergeLevel path _ _ _ rest

end

variable (path : List ResourceKey)

theorem mergedNode_directory (kept added : ResourceDirectory) :
    o.mergedNode path (.directory kept) (.directory added)
      = .directory (o.mergeLevel path kept {} added).1 := by
  rw [mergedNode, mergeNode]

theorem mergedNode_data (kept added : List UInt8) :
    o.mergedNode path (.data kept) (.data added)
      = .data (if path = blobPath then kept ++ added else kept) := by
  rw [mergedNode, mergeNode]
  dsimp only
  unfold mergeData
  split
  · rfl
  · split <;> rfl

/-- Under every key of a level stands what the two levels have there, merged. -/
theorem get?_mergeLevel {added : ResourceDirectory} (hnodup : (added.map Prod.fst).Nodup)
    (kept : ResourceDirectory) (f : ResourceFindings) (key : ResourceKey) :
    (o.mergeLevel path kept f added).1.get? key
      = o.mergedOption (path ++ [key]) (kept.get? key) (added.get? key) := by
  induction added generalizing kept f with
  | nil =>
    rw [mergeLevel]
    cases kept.get? key <;> rfl
  | cons e rest ih =>
    obtain ⟨k, n⟩ := e
    obtain ⟨hk, hrest⟩ := List.nodup_cons.mp hnodup
    rw [mergeLevel]
    dsimp only
    rw [ih hrest, get?_mergeEntry, ResourceDirectory.get?_cons]
    by_cases hkey : key = k
    · -- the rest has no entry of the key
      subst hkey
      rw [if_pos rfl, if_pos rfl, ResourceDirectory.get?_eq_none.mpr hk]
      cases kept.get? key with
      | none => rfl
      | some known =>
        dsimp only
        rw [fst_mergeNode]
        rfl
    · rw [if_neg hkey, if_neg hkey]

/-- The keys of a level keep their order, and those that are new come behind them. -/
theorem keys_mergeLevel {added : ResourceDirectory} (hnodup : (added.map Prod.fst).Nodup)
    (kept : ResourceDirectory) (f : ResourceFindings) :
    (o.mergeLevel path kept f added).1.map Prod.fst
      = kept.map Prod.fst ++ (added.map Prod.fst).filter (· ∉ kept.map Prod.fst) := by
  induction added generalizing kept f with
  | nil =>
    rw [mergeLevel]
    simp
  | cons e rest ih =>
    obtain ⟨k, n⟩ := e
    obtain ⟨hk, hrest⟩ := List.nodup_cons.mp hnodup
    have hentry : (o.mergeEntry path kept f (k, n)).1.map Prod.fst
        = if k ∈ kept.map Prod.fst then kept.map Prod.fst else kept.map Prod.fst ++ [k] := by
      rw [mergeEntry]
      cases hknown : kept.get? k with
      | none =>
        dsimp only
        rw [ResourceDirectory.keys_insert]
      | some known =>
        dsimp only
        rw [ResourceDirectory.keys_replace, if_pos (ResourceDirectory.mem_keys_of_get? hknown)]
    rw [mergeLevel]
    dsimp only
    rw [ih hrest, hentry, List.map_cons, List.filter_cons]
    by_cases hmem : k ∈ kept.map Prod.fst
    · rw [if_pos hmem]
      simp [hmem]
    · -- a key that comes behind the others is not met again
      have hlater : (rest.map Prod.fst).filter (· ∉ kept.map Prod.fst ++ [k])
          = (rest.map Prod.fst).filter (· ∉ kept.map Prod.fst) := by
        refine List.filter_congr fun key hkey ↦ ?_
        have hne : key ≠ k := fun heq ↦ hk (heq ▸ hkey)
        simp [hne]
      rw [if_neg hmem, hlater]
      simp [hmem]

mutual

/-- Trees without repeated keys give one without repeated keys. -/
theorem uniqueKeys_mergeNode {path : List ResourceKey} {kept : ResourceNode}
    (hkept : kept.uniqueKeys = true) (f : ResourceFindings) : (added : ResourceNode) →
    added.uniqueKeys = true → (o.mergeNode path kept f added).1.uniqueKeys = true
  | .data added, _ => by
    cases kept with
    | data bytes => rw [mergeNode, ResourceNode.uniqueKeys]
    | directory entries => exact hkept
  | .directory added, hadded => by
    cases kept with
    | data bytes => exact hkept
    | directory entries =>
      rw [mergeNode]
      exact uniqueKeys_mergeLevel hkept f added (ResourceDirectory.UniqueKeys.below hadded)

theorem uniqueKeys_mergeEntry {path : List ResourceKey} {kept : ResourceDirectory}
    (hkept : kept.UniqueKeys) (f : ResourceFindings) : (added : ResourceKey × ResourceNode) →
    ResourceNode.uniqueKeysOf added = true → (o.mergeEntry path kept f added).1.UniqueKeys
  | (key, node), hadded => by
    rw [ResourceNode.uniqueKeysOf] at hadded
    rw [mergeEntry]
    cases hknown : kept.get? key with
    | none => exact hkept.insert hknown hadded
    | some known =>
      have hnode : known.uniqueKeys = true :=
        ResourceDirectory.uniqueKeys_of_get? hkept.below hknown
      exact hkept.replace key (uniqueKeys_mergeNode hnode f node hadded)

theorem uniqueKeys_mergeLevel {path : List ResourceKey} {kept : ResourceDirectory}
    (hkept : kept.UniqueKeys) (f : ResourceFindings) : (added : ResourceDirectory) →
    ResourceNode.uniqueKeysBelow added = true → (o.mergeLevel path kept f added).1.UniqueKeys
  | [], _ => by rwa [mergeLevel]
  | entry :: rest, hadded => by
    rw [ResourceNode.uniqueKeysBelow, Bool.and_eq_true] at hadded
    rw [mergeLevel]
    exact uniqueKeys_mergeLevel (uniqueKeys_mergeEntry hkept f entry hadded.1) _ rest hadded.2

end

/-! ## The merged tree, path by path

A lookup goes down one key at a time, and so does a merge. Below a payload a lookup finds nothing,
and a merge goes no further either. -/

variable {o path}

/-- What the kept tree has at a path is merged with what the added one has there. -/
theorem at?_mergedNode {kept added n : ResourceNode} (hadded : added.uniqueKeys = true)
    {rest : List ResourceKey} (h : kept.at? rest = some n) :
    (o.mergedNode path kept added).at? rest
      = o.mergedOption (path ++ rest) (some n) (added.at? rest) := by
  induction rest generalizing path kept added with
  | nil =>
    rw [ResourceNode.at?_nil] at h
    cases h
    rw [ResourceNode.at?_nil, ResourceNode.at?_nil, List.append_nil]
    rfl
  | cons key rest ih =>
    cases kept with
    | data bytes => cases h
    | directory entries =>
      cases added with
      | data bytes => exact h
      | directory others =>
        rw [mergedNode_directory, ResourceNode.at?_directory_cons,
          o.get?_mergeLevel path (ResourceDirectory.UniqueKeys.nodup hadded)]
        rw [ResourceNode.at?_directory_cons] at h ⊢
        obtain ⟨known, hknown, hrest⟩ := Option.bind_eq_some_iff.mp h
        rw [hknown]
        cases hnode : ResourceDirectory.get? others key with
        | none => exact hrest
        | some node =>
          have hunique : node.uniqueKeys = true :=
            ResourceDirectory.uniqueKeys_of_get? (ResourceDirectory.UniqueKeys.below hadded) hnode
          have hmerged : (o.mergedNode (path ++ [key]) known node).at? rest
              = o.mergedOption (path ++ [key] ++ rest) (some n) (node.at? rest) :=
            ih hunique hrest
          rwa [List.append_assoc] at hmerged

/-- Where the kept tree has nothing, and no payload on the way, stands what the added one has. -/
theorem at?_mergedNode_of_open {kept added : ResourceNode} (hadded : added.uniqueKeys = true)
    {rest : List ResourceKey} (hnone : kept.at? rest = none)
    (hopen : ∀ q, q <+: rest → ∀ bytes, kept.at? q ≠ some (.data bytes)) :
    (o.mergedNode path kept added).at? rest = added.at? rest := by
  induction rest generalizing path kept added with
  | nil =>
    rw [ResourceNode.at?_nil] at hnone
    cases hnone
  | cons key rest ih =>
    cases kept with
    | data bytes => exact absurd (ResourceNode.at?_nil _) (hopen [] (List.nil_prefix ..) bytes)
    | directory entries =>
      cases added with
      | data bytes => exact hnone
      | directory others =>
        rw [mergedNode_directory, ResourceNode.at?_directory_cons,
          o.get?_mergeLevel path (ResourceDirectory.UniqueKeys.nodup hadded)]
        rw [ResourceNode.at?_directory_cons] at hnone ⊢
        cases hknown : ResourceDirectory.get? entries key with
        | none => rfl
        | some known =>
          rw [hknown] at hnone
          cases hnode : ResourceDirectory.get? others key with
          | none => exact hnone
          | some node =>
            have hunique : node.uniqueKeys = true :=
              ResourceDirectory.uniqueKeys_of_get? (ResourceDirectory.UniqueKeys.below hadded)
                hnode
            refine ih hunique hnone fun q hq bytes hdata ↦ ?_
            refine hopen (key :: q) (List.cons_prefix_cons.mpr ⟨rfl, hq⟩) bytes ?_
            rw [ResourceNode.at?_directory_cons, hknown]
            exact hdata

/-! ## Refused nodes

A node is refused when a directory and a payload meet, or two payloads that are neither for the
blob nor version metadata. Below a refused node nothing is merged, so warnings are counted without
looking there. -/

variable (o path)

/-- The warning for a node that is not merged into the one at its path, if it is refused with
one. -/
def refusal? : (kept added : ResourceNode) → Option Warning
  | .data _, .data _ =>
    if path = blobPath ∨ path ∈ versionPaths then none
    else some (.resourceCollision o.name (pathText path))
  | .directory _, .directory _ => none
  | .data _, .directory _ | .directory _, .data _ =>
    some (.inconsistentResource o.name (pathText path))

/-- The same for a node at a path below. -/
def refusalAt? (kept : ResourceNode) (x : List ResourceKey × ResourceNode) : Option Warning :=
  (kept.at? x.1).bind fun n ↦ o.refusal? (path ++ x.1) n x.2

theorem mergedNode_of_refusal? {kept added : ResourceNode} {w : Warning}
    (h : o.refusal? path kept added = some w) : o.mergedNode path kept added = kept := by
  cases kept with
  | data bytes =>
    cases added with
    | data more =>
      have hblob : path ≠ blobPath := by
        intro heq
        rw [refusal?, if_pos (.inl heq)] at h
        cases h
      rw [mergedNode_data, if_neg hblob]
    | directory _ => rfl
  | directory entries =>
    cases added with
    | data _ => rfl
    | directory _ => cases h

theorem refusalAt?_data_cons (bytes : List UInt8) (key : ResourceKey)
    (x : List ResourceKey × ResourceNode) :
    o.refusalAt? path (.data bytes) (key :: x.1, x.2) = none := rfl

theorem refusalAt?_directory_cons (entries : ResourceDirectory) (key : ResourceKey)
    (x : List ResourceKey × ResourceNode) :
    o.refusalAt? path (.directory entries) (key :: x.1, x.2)
      = (ResourceDirectory.get? entries key).bind fun n ↦ o.refusalAt? (path ++ [key]) n x := by
  rw [refusalAt?, ResourceNode.at?_directory_cons, Option.bind_assoc]
  refine Option.bind_congr fun n _ ↦ ?_
  rw [refusalAt?, List.append_assoc]
  rfl

theorem refusals_cons (kept added : ResourceNode) (xs : List (List ResourceKey × ResourceNode)) :
    (([], added) :: xs).filterMap (o.refusalAt? path kept)
      = (o.refusal? path kept added).toList ++ xs.filterMap (o.refusalAt? path kept) := by
  rw [List.filterMap_cons]
  simp only [refusalAt?, ResourceNode.at?_nil, Option.bind_some, List.append_nil]
  cases o.refusal? path kept added <;> rfl

theorem refusals_congr {entries entries' added : ResourceDirectory}
    (h : ∀ e ∈ added, entries.get? e.1 = entries'.get? e.1) :
    (ResourceNode.nodesBelow added).filterMap (o.refusalAt? path (.directory entries))
      = (ResourceNode.nodesBelow added).filterMap (o.refusalAt? path (.directory entries')) := by
  refine List.filterMap_congr fun x hx ↦ ?_
  obtain ⟨e, he, y, -, rfl⟩ := ResourceNode.mem_nodesBelow.mp hx
  rw [refusalAt?_directory_cons, refusalAt?_directory_cons, h e he]

mutual

/-- A merge warns of each refused node, in the order of the added tree, and of nothing else. -/
theorem warnings_mergeNode_eq (path : List ResourceKey) (kept : ResourceNode)
    (f : ResourceFindings) : (added : ResourceNode) → added.uniqueKeys = true →
    (o.mergeNode path kept f added).2.warnings
      = f.warnings ++ added.nodes.filterMap (o.refusalAt? path kept)
  | .data added, _ => by
    rw [ResourceNode.nodes, refusals_cons, List.filterMap_nil, List.append_nil]
    cases kept with
    | data bytes =>
      rw [mergeNode, refusal?]
      dsimp only
      unfold mergeData
      by_cases hblob : path = blobPath
      · simp [hblob, ResourceFindings.noteOffset]
      · by_cases hversion : path ∈ versionPaths
        · simp [hblob, hversion]
        · simp [hblob, hversion, ResourceFindings.warn]
    | directory entries => rfl
  | .directory added, hadded => by
    rw [ResourceNode.nodes, refusals_cons]
    cases kept with
    | data bytes =>
      have hnone : (ResourceNode.nodesBelow added).filterMap (o.refusalAt? path (.data bytes))
          = [] := by
        refine List.filterMap_eq_nil_iff.mpr fun x hx ↦ ?_
        obtain ⟨e, -, y, -, rfl⟩ := ResourceNode.mem_nodesBelow.mp hx
        exact o.refusalAt?_data_cons path bytes e.1 y
      rw [hnone]
      rfl
    | directory entries =>
      rw [mergeNode]
      exact warnings_mergeLevel_eq path entries f added
        (ResourceDirectory.UniqueKeys.nodup hadded) (ResourceDirectory.UniqueKeys.below hadded)

theorem warnings_mergeEntry_eq (path : List ResourceKey) (kept : ResourceDirectory)
    (f : ResourceFindings) : (added : ResourceKey × ResourceNode) →
    ResourceNode.uniqueKeysOf added = true → (o.mergeEntry path kept f added).2.warnings
      = f.warnings
        ++ (ResourceNode.nodesOf added).filterMap (o.refusalAt? path (.directory kept))
  | (key, node), hadded => by
    rw [ResourceNode.uniqueKeysOf] at hadded
    rw [mergeEntry, ResourceNode.nodesOf, List.filterMap_map]
    have hbelow : o.refusalAt? path (.directory kept) ∘ (fun x ↦ (key :: x.1, x.2))
        = fun x ↦ (kept.get? key).bind fun n ↦ o.refusalAt? (path ++ [key]) n x :=
      funext fun x ↦ o.refusalAt?_directory_cons path kept key x
    rw [hbelow]
    cases kept.get? key with
    | none => simp
    | some known => exact warnings_mergeNode_eq _ known f node hadded

theorem warnings_mergeLevel_eq (path : List ResourceKey) (kept : ResourceDirectory)
    (f : ResourceFindings) : (added : ResourceDirectory) → (added.map Prod.fst).Nodup →
    ResourceNode.uniqueKeysBelow added = true → (o.mergeLevel path kept f added).2.warnings
      = f.warnings
        ++ (ResourceNode.nodesBelow added).filterMap (o.refusalAt? path (.directory kept))
  | [], _, _ => by
    rw [mergeLevel, ResourceNode.nodesBelow]
    simp
  | (key, node) :: rest, hnodup, hadded => by
    obtain ⟨hkey, hrest⟩ := List.nodup_cons.mp hnodup
    rw [ResourceNode.uniqueKeysBelow, Bool.and_eq_true] at hadded
    -- the rest finds under its keys what it would have found before
    have hsame : ∀ e ∈ rest, (o.mergeEntry path kept f (key, node)).1.get? e.1
        = kept.get? e.1 := by
      intro e he
      have hmem : e.1 ∈ rest.map Prod.fst := List.mem_map_of_mem he
      have hne : e.1 ≠ key := fun heq ↦ hkey (heq ▸ hmem)
      rw [get?_mergeEntry, if_neg hne]
    rw [mergeLevel]
    dsimp only
    rw [warnings_mergeLevel_eq path _ _ rest hrest hadded.2,
      warnings_mergeEntry_eq path kept f (key, node) hadded.1, o.refusals_congr path hsame,
      ResourceNode.nodesBelow, List.filterMap_append, List.append_assoc]

end

end ResourceOwner

/-! ## Accounts of payloads

A payload of the added tree is there afterwards, or it has been appended to the blob, or it is
version metadata, which stays what it was, or there is a warning for a node on the way to it. -/

/-- A tree leaves a path open: it has nothing there, and no payload on the way. -/
def ResourceDirectory.Open (d : ResourceDirectory) (path : List ResourceKey) : Prop :=
  d.at? path = none ∧ ∀ q, q <+: path → q ≠ path → ∀ bytes, d.leaf? q ≠ some bytes

/-- The keys that a tree lists at a path. -/
def ResourceDirectory.keysAt (d : ResourceDirectory) (path : List ResourceKey) :
    List ResourceKey :=
  match d.at? path with
  | some (.directory entries) => entries.map Prod.fst
  | _ => []

/-- What has become of a payload at a path of a tree that was merged into another. -/
structure PayloadAccounted (o : ResourceOwner) (kept merged : ResourceDirectory)
    (f f' : ResourceFindings) (path : List ResourceKey) (payload : List UInt8) : Prop where
  /-- It is there, if the path was open. -/
  added : kept.Open path → merged.leaf? path = some payload
  /-- It was put behind the blob, and its offset was noted, which is kept in 32 bits. -/
  appended : path = blobPath → ∀ {bytes}, kept.leaf? path = some bytes →
    merged.leaf? path = some (bytes ++ payload)
      ∧ f'.offsets.find? o.id = some (min bytes.length (UInt32.size - 1))
  /-- It was passed over where there is version metadata. -/
  passedOver : path ∈ versionPaths → ∀ {bytes}, kept.leaf? path = some bytes →
    merged.leaf? path = some bytes
  /-- In all other cases there is a new warning that names a place on the way to it, and that place
  was left alone. -/
  refused : ¬kept.Open path →
    ¬(path = blobPath ∧ ∃ bytes, kept.leaf? path = some bytes) →
    ¬(path ∈ versionPaths ∧ ∃ bytes, kept.leaf? path = some bytes) →
    ∃ q w new, q <+: path ∧ f'.warnings = f.warnings ++ new ∧ w ∈ new
      ∧ (w = .resourceCollision o.name (pathText q)
        ∨ w = .inconsistentResource o.name (pathText q))
      ∧ merged.at? q = kept.at? q

/-- The merge of two trees loses nothing silently. -/
structure MergesWithoutLoss (o : ResourceOwner) (kept added merged : ResourceDirectory)
    (f f' : ResourceFindings) : Prop where
  /-- No level lists a key twice. -/
  unique : merged.UniqueKeys
  /-- The keys of every level keep their order, and new ones come behind them. -/
  keys : ∀ {path entries}, kept.at? path = some (.directory entries) →
    merged.keysAt path = entries.map Prod.fst
      ++ (added.keysAt path).filter (· ∉ entries.map Prod.fst)
  /-- Payloads that were there are there, and only the blob has grown. -/
  payloads : ∀ {path bytes}, kept.leaf? path = some bytes →
    ∃ behind, merged.leaf? path = some (bytes ++ behind) ∧ (path ≠ blobPath → behind = [])
  /-- Every payload of the tree that is merged in is accounted for. -/
  accounted : ∀ {path payload}, added.leaf? path = some payload →
    PayloadAccounted o kept merged f f' path payload
  /-- There is a warning for each refused node, and no other. -/
  warnings : f'.warnings = f.warnings
    ++ (ResourceNode.directory added).nodes.filterMap (o.refusalAt? [] (.directory kept))

namespace ResourceOwner

variable {o : ResourceOwner} {kept added : ResourceDirectory} {f : ResourceFindings}

theorem fst_mergeTree (o : ResourceOwner) (kept added : ResourceDirectory)
    (f : ResourceFindings) :
    ResourceNode.directory (o.mergeTree kept f added).1
      = o.mergedNode [] (.directory kept) (.directory added) := by
  rw [mergedNode_directory, mergeTree, o.fst_mergeLevel [] kept f {}]

/-- What the kept tree has at a path is merged with what the added one has there. -/
theorem at?_mergeTree (hadded : added.UniqueKeys) (f : ResourceFindings)
    {path : List ResourceKey} {n : ResourceNode} (h : kept.at? path = some n) :
    (o.mergeTree kept f added).1.at? path = o.mergedOption path (some n) (added.at? path) := by
  unfold ResourceDirectory.at? at h ⊢
  rw [fst_mergeTree]
  exact at?_mergedNode hadded h

theorem at?_mergeTree_of_open (hadded : added.UniqueKeys) (f : ResourceFindings)
    {path : List ResourceKey} (h : kept.Open path) :
    (o.mergeTree kept f added).1.at? path = added.at? path := by
  obtain ⟨hnone, hopen⟩ := h
  unfold ResourceDirectory.at?
  rw [fst_mergeTree]
  refine at?_mergedNode_of_open hadded hnone fun q hq bytes hdata ↦ ?_
  have hne : q ≠ path := by
    rintro rfl
    rw [ResourceDirectory.at?] at hnone
    rw [hnone] at hdata
    cases hdata
  exact hopen q hq hne bytes (ResourceDirectory.leaf?_eq_some.mpr hdata)

theorem warnings_mergeTree (hadded : added.UniqueKeys) (kept : ResourceDirectory)
    (f : ResourceFindings) : (o.mergeTree kept f added).2.warnings = f.warnings
      ++ (ResourceNode.directory added).nodes.filterMap (o.refusalAt? [] (.directory kept)) := by
  have hnode := o.warnings_mergeNode_eq [] (.directory kept) f (.directory added) hadded
  rwa [mergeNode] at hnode

/-- A node that is refused at a path has its warning, and what it met there is left alone. -/
theorem refused_mergeTree (hadded : added.UniqueKeys) (f : ResourceFindings)
    {path : List ResourceKey} {n n' : ResourceNode} {w : Warning} (hkept : kept.at? path = some n)
    (hnode : added.at? path = some n') (hrefusal : o.refusal? path n n' = some w) :
    w ∈ (ResourceNode.directory added).nodes.filterMap (o.refusalAt? [] (.directory kept))
      ∧ (o.mergeTree kept f added).1.at? path = kept.at? path := by
  constructor
  · refine List.mem_filterMap.mpr ⟨(path, n'), ResourceNode.mem_nodes_of_at? hnode, ?_⟩
    unfold ResourceDirectory.at? at hkept
    rw [refusalAt?, hkept]
    exact hrefusal
  · rw [at?_mergeTree hadded f hkept, hnode, hkept]
    exact congrArg some (o.mergedNode_of_refusal? path hrefusal)

theorem keys_mergeTree (hadded : added.UniqueKeys) (f : ResourceFindings)
    {path : List ResourceKey} {entries : ResourceDirectory}
    (h : kept.at? path = some (.directory entries)) :
    (o.mergeTree kept f added).1.keysAt path = entries.map Prod.fst
      ++ (added.keysAt path).filter (· ∉ entries.map Prod.fst) := by
  have hmerged := at?_mergeTree (o := o) hadded f h
  unfold ResourceDirectory.keysAt
  rw [hmerged]
  cases hnode : added.at? path with
  | none => simp [mergedOption]
  | some node =>
    cases node with
    | data bytes => simp [mergedOption, mergedNode, mergeNode]
    | directory others =>
      have hunique : ResourceDirectory.UniqueKeys others :=
        ResourceNode.uniqueKeys_at? hadded hnode
      dsimp only [mergedOption]
      rw [mergedNode_directory]
      exact o.keys_mergeLevel path hunique.nodup entries {}

theorem leaf?_mergeTree (hadded : added.UniqueKeys) (f : ResourceFindings)
    {path : List ResourceKey} {bytes payload : List UInt8} (h : kept.leaf? path = some bytes)
    (hpayload : added.leaf? path = some payload) : (o.mergeTree kept f added).1.leaf? path
      = some (if path = blobPath then bytes ++ payload else bytes) := by
  have hmerged := at?_mergeTree (o := o) hadded f (ResourceDirectory.leaf?_eq_some.mp h)
  rw [ResourceDirectory.leaf?_eq_some.mp hpayload] at hmerged
  refine ResourceDirectory.leaf?_eq_some.mpr (hmerged.trans ?_)
  exact congrArg some (o.mergedNode_data path bytes payload)

/-- A payload that was there is there, and has grown at most at the place of the blob. -/
theorem exists_leaf?_mergeTree (hadded : added.UniqueKeys) (f : ResourceFindings)
    {path : List ResourceKey} {bytes : List UInt8} (h : kept.leaf? path = some bytes) :
    ∃ behind, (o.mergeTree kept f added).1.leaf? path = some (bytes ++ behind)
      ∧ (path ≠ blobPath → behind = []) := by
  have hmerged := at?_mergeTree (o := o) hadded f (ResourceDirectory.leaf?_eq_some.mp h)
  -- whatever else is there is not merged into a payload
  have hstays : (o.mergeTree kept f added).1.at? path = some (.data bytes) →
      ∃ behind, (o.mergeTree kept f added).1.leaf? path = some (bytes ++ behind)
        ∧ (path ≠ blobPath → behind = []) := by
    intro hsame
    refine ⟨[], ?_, fun _ ↦ rfl⟩
    rw [List.append_nil]
    exact ResourceDirectory.leaf?_eq_some.mpr hsame
  cases hnode : added.at? path with
  | none => exact hstays (hmerged.trans (by rw [hnode]; rfl))
  | some node =>
    cases node with
    | directory _ => exact hstays (hmerged.trans (by rw [hnode]; rfl))
    | data payload =>
      rw [leaf?_mergeTree hadded f h (ResourceDirectory.leaf?_eq_some.mpr hnode)]
      by_cases hblob : path = blobPath
      · exact ⟨payload, by rw [if_pos hblob], fun hne ↦ absurd hblob hne⟩
      · exact ⟨[], by rw [if_neg hblob, List.append_nil], fun _ ↦ rfl⟩

/-- A payload whose path is not open meets a node that refuses it or something on the way to it, if
it is not for the blob and not version metadata. -/
theorem exists_refusal? {path : List ResourceKey} {payload : List UInt8}
    (hpayload : added.leaf? path = some payload) (hopen : ¬kept.Open path)
    (hblob : ¬(path = blobPath ∧ ∃ bytes, kept.leaf? path = some bytes))
    (hversion : ¬(path ∈ versionPaths ∧ ∃ bytes, kept.leaf? path = some bytes)) :
    ∃ q n n' w, q <+: path ∧ kept.at? q = some n ∧ added.at? q = some n'
      ∧ o.refusal? q n n' = some w
      ∧ (w = .resourceCollision o.name (pathText q)
        ∨ w = .inconsistentResource o.name (pathText q)) := by
  have hdata : added.at? path = some (.data payload) := ResourceDirectory.leaf?_eq_some.mp hpayload
  cases hn : kept.at? path with
  | some n =>
    cases n with
    | data bytes =>
      have hbytes : kept.leaf? path = some bytes := ResourceDirectory.leaf?_eq_some.mpr hn
      have hnot : ¬(path = blobPath ∨ path ∈ versionPaths) := by
        rintro (hpath | hpath)
        · exact hblob ⟨hpath, bytes, hbytes⟩
        · exact hversion ⟨hpath, bytes, hbytes⟩
      exact ⟨path, _, _, _, List.prefix_refl _, hn, hdata, if_neg hnot, .inl rfl⟩
    | directory _ => exact ⟨path, _, _, _, List.prefix_refl _, hn, hdata, rfl, .inr rfl⟩
  | none =>
    -- a payload stands on the way, where the other tree goes on
    obtain ⟨q, hq, hne, bytes, hbytes⟩ : ∃ q, q <+: path ∧ q ≠ path
        ∧ ∃ bytes, kept.leaf? q = some bytes := by
      by_contra hno
      push Not at hno
      exact hopen ⟨hn, hno⟩
    obtain ⟨rest, rfl⟩ := hq
    have hrest : rest ≠ [] := fun hnil ↦ hne (by rw [hnil, List.append_nil])
    unfold ResourceDirectory.at? at hdata
    rw [ResourceNode.at?_append] at hdata
    obtain ⟨n', hn', hbelow⟩ := Option.bind_eq_some_iff.mp hdata
    cases n' with
    | data _ => exact absurd (ResourceNode.at?_data hbelow) hrest
    | directory _ =>
      exact ⟨q, _, _, _, List.prefix_append _ _, ResourceDirectory.leaf?_eq_some.mp hbytes, hn',
        rfl, .inr rfl⟩

end ResourceOwner

/-- The merge of trees without repeated keys loses nothing silently, whatever was found before. -/
theorem mergesWithoutLoss_mergeTree (o : ResourceOwner) {kept added : ResourceDirectory}
    (f : ResourceFindings) (hkept : kept.UniqueKeys) (hadded : added.UniqueKeys) :
    MergesWithoutLoss o kept added (o.mergeTree kept f added).1 f (o.mergeTree kept f added).2 where
  unique := o.uniqueKeys_mergeLevel hkept f added hadded.below
  keys := ResourceOwner.keys_mergeTree hadded f
  payloads := ResourceOwner.exists_leaf?_mergeTree hadded f
  warnings := ResourceOwner.warnings_mergeTree hadded kept f
  accounted := by
    intro path payload hpayload
    refine ⟨fun hopen ↦ ?_, ?_, ?_, fun hopen hblob hversion ↦ ?_⟩
    · rw [ResourceDirectory.leaf?_eq_some, ResourceOwner.at?_mergeTree_of_open hadded f hopen]
      exact ResourceDirectory.leaf?_eq_some.mp hpayload
    · rintro rfl bytes hbytes
      have hmerge := ResourceOwner.blobMerge_mergeTree (o := o) hadded kept f
      constructor
      · rw [ResourceOwner.leaf?_mergeTree hadded f hbytes hpayload, if_pos rfl]
      · rw [hmerge.offsets_of_both hbytes hpayload, Table.find?_insert, if_pos rfl]
    · intro hversion bytes hbytes
      have hne : path ≠ blobPath := by
        rintro rfl
        revert hversion
        decide
      rw [ResourceOwner.leaf?_mergeTree hadded f hbytes hpayload, if_neg hne]
    · obtain ⟨q, n, n', w, hq, hn, hn', hrefusal, hw⟩ :=
        ResourceOwner.exists_refusal? (o := o) hpayload hopen hblob hversion
      obtain ⟨hmem, hsame⟩ := ResourceOwner.refused_mergeTree hadded f hn hn' hrefusal
      exact ⟨q, w, _, hq, ResourceOwner.warnings_mergeTree hadded kept f, hmem, hw, hsame⟩

/-! ## A tree that meets another in every way -/

/-- A tree with a blob, version metadata, an icon, and a menu that is a directory. -/
def keptTree : ResourceDirectory := [
  (blobType, .directory [(blobName, .data [1, 2])]),
  (.id 16, .directory [(.id 1, .directory [(.id 1033, .data [3])])]),
  (.name "ICON", .directory [(.id 1, .data [4])]),
  (.name "MENU", .directory [(.id 1, .data [5])])]

/-- A tree that has something for all of these and a dialog. -/
def addedTree : ResourceDirectory := [
  (.name "DIALOG", .directory [(.id 7, .data [6])]),
  (.name "MENU", .data [7]),
  (.name "ICON", .directory [(.id 2, .data [8]), (.id 1, .data [9])]),
  (.id 16, .directory [(.id 1, .directory [(.id 1033, .data [10])])]),
  (blobType, .directory [(blobName, .data [11])])]

/-- The module that the second tree is from. -/
def treeOwner : ResourceOwner := ⟨⟨1⟩, "Lib"⟩

/-- The blob grows, the dialog and the second icon are there, the version metadata stays, and there
are warnings for the menu and for the first icon. -/
theorem mergesWithoutLoss_keptTree : keptTree.UniqueKeys ∧ addedTree.UniqueKeys
    ∧ MergesWithoutLoss treeOwner keptTree addedTree (treeOwner.mergeTree keptTree {} addedTree).1
      {} (treeOwner.mergeTree keptTree {} addedTree).2
    ∧ (treeOwner.mergeTree keptTree {} addedTree).1 = [
      (blobType, .directory [(blobName, .data [1, 2, 11])]),
      (.id 16, .directory [(.id 1, .directory [(.id 1033, .data [3])])]),
      (.name "ICON", .directory [(.id 1, .data [4]), (.id 2, .data [8])]),
      (.name "MENU", .directory [(.id 1, .data [5])]),
      (.name "DIALOG", .directory [(.id 7, .data [6])])]
    ∧ (treeOwner.mergeTree keptTree {} addedTree).2.warnings
      = [.inconsistentResource "Lib" "MENU", .resourceCollision "Lib" "ICON/#1"] := by
  have hkept : keptTree.UniqueKeys := by decide
  have hadded : addedTree.UniqueKeys := by decide
  refine ⟨hkept, hadded, mergesWithoutLoss_mergeTree treeOwner {} hkept hadded, ?_, ?_⟩
  all_goals decide +kernel

end ModuleLinker
