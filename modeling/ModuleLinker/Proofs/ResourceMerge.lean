import Mathlib.Algebra.BigOperators.Group.List.Basic
import Mathlib.Algebra.Ring.Nat
import Mathlib.Data.List.Induction
import ModuleLinker.Proofs.Image.Resources
import ModuleLinker.Proofs.Registry
import ModuleLinker.ResourceMerge

/-!
# The appended blob

A merge treats one path unlike the others: the payloads that stand there are put one behind the
other. What a merge does at that path is read off the two levels that the path goes through. In a
level without repeated keys there is one entry that leads on along the path, and all others leave
the payload and the offsets alone.

Over all modules the blob only grows at its end, so a payload that is in it stays where it is. It is
not in it only if it met a directory, or a payload stood where the path goes through, and then there
is a warning.
-/

namespace ModuleLinker

/-! ## What a merge leaves alone

A merge notes an offset only when it appends to the blob, so one that is on its way to some other
path notes none. The three statements are about nodes, entries and levels, and are proved
together. -/

namespace ResourceOwner

variable (o : ResourceOwner)

theorem offsets_mergeData {path : List ResourceKey} (hpath : path ≠ blobPath)
    (kept added : List UInt8) (f : ResourceFindings) :
    (o.mergeData path kept added f).2.offsets = f.offsets := by
  unfold mergeData
  rw [if_neg hpath]
  split <;> rfl

theorem not_prefix_concat {path : List ResourceKey} (h : ¬path <+: blobPath) (key : ResourceKey) :
    ¬path ++ [key] <+: blobPath :=
  fun hpre ↦ h ((List.prefix_append path [key]).trans hpre)

mutual

theorem offsets_mergeNode {path : List ResourceKey} (h : ¬path <+: blobPath)
    (kept : ResourceNode) (f : ResourceFindings) :
    (added : ResourceNode) → (o.mergeNode path kept f added).2.offsets = f.offsets
  | .data added => by
    cases kept with
    | data bytes =>
      rw [mergeNode]
      exact o.offsets_mergeData (fun heq ↦ h (heq ▸ List.prefix_refl _)) bytes added f
    | directory _ => rfl
  | .directory added => by
    cases kept with
    | data _ => rfl
    | directory entries =>
      rw [mergeNode]
      exact offsets_mergeLevel (not_prefix_concat h) entries f added

theorem offsets_mergeEntry {path : List ResourceKey} (kept : ResourceDirectory)
    (f : ResourceFindings) : (added : ResourceKey × ResourceNode) →
    ¬path ++ [added.1] <+: blobPath → (o.mergeEntry path kept f added).2.offsets = f.offsets
  | (key, node), h => by
    rw [mergeEntry]
    cases kept.get? key with
    | none => rfl
    | some known => exact offsets_mergeNode h known f node

theorem offsets_mergeLevel {path : List ResourceKey}
    (h : ∀ key, ¬path ++ [key] <+: blobPath) (kept : ResourceDirectory) (f : ResourceFindings) :
    (added : ResourceDirectory) → (o.mergeLevel path kept f added).2.offsets = f.offsets
  | [] => by rw [mergeLevel]
  | entry :: rest => by
    rw [mergeLevel]
    dsimp only
    rw [offsets_mergeLevel h _ _ rest, offsets_mergeEntry kept f entry (h _)]

end

mutual

theorem warnings_mergeNode (path : List ResourceKey) (kept : ResourceNode)
    (f : ResourceFindings) :
    (added : ResourceNode) → f.warnings <+: (o.mergeNode path kept f added).2.warnings
  | .data added => by
    cases kept with
    | data bytes =>
      rw [mergeNode]
      dsimp only
      unfold mergeData
      split
      · exact List.prefix_refl _
      · split
        · exact List.prefix_refl _
        · exact List.prefix_append _ _
    | directory _ => exact List.prefix_append _ _
  | .directory added => by
    cases kept with
    | data _ => exact List.prefix_append _ _
    | directory entries =>
      rw [mergeNode]
      exact warnings_mergeLevel path entries f added

theorem warnings_mergeEntry (path : List ResourceKey) (kept : ResourceDirectory)
    (f : ResourceFindings) : (added : ResourceKey × ResourceNode) →
    f.warnings <+: (o.mergeEntry path kept f added).2.warnings
  | (key, node) => by
    rw [mergeEntry]
    cases kept.get? key with
    | none => exact List.prefix_refl _
    | some known => exact warnings_mergeNode _ known f node

theorem warnings_mergeLevel (path : List ResourceKey) (kept : ResourceDirectory)
    (f : ResourceFindings) : (added : ResourceDirectory) →
    f.warnings <+: (o.mergeLevel path kept f added).2.warnings
  | [] => by
    unfold mergeLevel
    exact List.prefix_refl _
  | entry :: rest => by
    rw [mergeLevel]
    exact (warnings_mergeEntry path kept f entry).trans (warnings_mergeLevel path _ _ rest)

end

/-! ## One key of a level

Entries of a level are merged one after the other. If no key is repeated, each entry finds under
its key what was there at first. -/

variable (path : List ResourceKey)

theorem get?_mergeEntry (kept : ResourceDirectory) (f : ResourceFindings) (key key' : ResourceKey)
    (node : ResourceNode) :
    (o.mergeEntry path kept f (key, node)).1.get? key'
      = if key' = key then
          match kept.get? key with
          | some known => some (o.mergeNode (path ++ [key]) known f node).1
          | none => some node
        else kept.get? key' := by
  rw [mergeEntry]
  cases hknown : kept.get? key with
  | none => exact ResourceDirectory.get?_insert _ _ _ _
  | some known =>
    dsimp only
    rw [ResourceDirectory.get?_replace, hknown]
    rfl

/-- A level without repeated keys does to one key what its entry of that key does, if it has one, as
long as no other key leads to the blob. -/
theorem mergeLevel_at (key : ResourceKey)
    (hothers : ∀ key', key' ≠ key → ¬path ++ [key'] <+: blobPath) {added : ResourceDirectory}
    (hnodup : (added.map Prod.fst).Nodup) (kept : ResourceDirectory) (f : ResourceFindings) :
    match added.get? key with
    | none => (o.mergeLevel path kept f added).1.get? key = kept.get? key
      ∧ (o.mergeLevel path kept f added).2.offsets = f.offsets
    | some node => ∃ kept' f', kept'.get? key = kept.get? key ∧ f'.offsets = f.offsets
      ∧ (o.mergeLevel path kept f added).1.get? key
        = (o.mergeEntry path kept' f' (key, node)).1.get? key
      ∧ (o.mergeLevel path kept f added).2.offsets
        = (o.mergeEntry path kept' f' (key, node)).2.offsets
      ∧ (o.mergeEntry path kept' f' (key, node)).2.warnings
        <+: (o.mergeLevel path kept f added).2.warnings := by
  induction added generalizing kept f with
  | nil =>
    rw [mergeLevel]
    exact ⟨rfl, rfl⟩
  | cons e rest ih =>
    obtain ⟨k, n⟩ := e
    obtain ⟨hk, hrest⟩ := List.nodup_cons.mp hnodup
    rw [ResourceDirectory.get?_cons, mergeLevel]
    dsimp only
    have ih' := ih hrest (o.mergeEntry path kept f (k, n)).1 (o.mergeEntry path kept f (k, n)).2
    by_cases hkey : key = k
    · -- the rest has no entry of the key
      subst hkey
      rw [ResourceDirectory.get?_eq_none.mpr hk] at ih'
      rw [if_pos rfl]
      exact ⟨kept, f, rfl, rfl, ih'.1, ih'.2, o.warnings_mergeLevel path _ _ rest⟩
    · have hsame : (o.mergeEntry path kept f (k, n)).1.get? key = kept.get? key := by
        rw [get?_mergeEntry, if_neg hkey]
      have hoffsets : (o.mergeEntry path kept f (k, n)).2.offsets = f.offsets :=
        o.offsets_mergeEntry kept f (k, n) (hothers k (Ne.symm hkey))
      rw [if_neg hkey]
      rw [hsame, hoffsets] at ih'
      exact ih'

end ResourceOwner

/-! ## The path of the blob

The blob stands two levels down. At each of them the merge does to the one key what its entry
does, and to the other keys nothing that matters. What comes out is said for payloads that may be
missing on either side. -/

/-- The key of the directory that the blob stands in. -/
def blobType : ResourceKey := .id 0x3FF

/-- The key of the blob in its directory. -/
def blobName : ResourceKey := .id 101

/-- The payload of a tree for the blob. -/
def ResourceDirectory.blob? (d : ResourceDirectory) : Option (List UInt8) := d.leaf? blobPath

theorem ResourceDirectory.blob?_eq (d : ResourceDirectory) :
    d.blob? = match d.get? blobType with
      | some (.directory entries) => leaf? entries [blobName]
      | _ => none := rfl

/-- What merging a payload into a payload makes of it, where either may be missing, and of the
offsets. A payload that has met something else is refused, with a warning. -/
inductive BlobMerge (o : ResourceOwner) (offsets : Table ModuleId Nat) (f : ResourceFindings) :
    Option (List UInt8) → Option (List UInt8) → Option (List UInt8) → Prop
  | appended {kept added : List UInt8}
      (h : f.offsets = offsets.insert o.id (min kept.length (UInt32.size - 1))) :
      BlobMerge o offsets f (some kept) (some added) (some (kept ++ added))
  | kept {kept : List UInt8} (h : f.offsets = offsets) :
      BlobMerge o offsets f (some kept) none (some kept)
  | added {added : Option (List UInt8)} (h : f.offsets = offsets) :
      BlobMerge o offsets f none added added
  | refused {added : List UInt8} {path : String} (h : f.offsets = offsets)
      (hwarn : .inconsistentResource o.name path ∈ f.warnings) :
      BlobMerge o offsets f none (some added) none

namespace BlobMerge

variable {o : ResourceOwner} {offsets : Table ModuleId Nat} {f f' : ResourceFindings}
  {kept added merged : Option (List UInt8)}

theorem of_none (h : f.offsets = offsets) : BlobMerge o offsets f kept none kept := by
  cases kept with
  | none => exact .added h
  | some _ => exact .kept h

theorem mono (h : BlobMerge o offsets f kept added merged) (hoffsets : f'.offsets = f.offsets)
    (hwarnings : f.warnings <+: f'.warnings) : BlobMerge o offsets f' kept added merged := by
  cases h with
  | appended h => exact .appended (hoffsets.trans h)
  | kept h => exact .kept (hoffsets.trans h)
  | added h => exact .added (hoffsets.trans h)
  | refused h hwarn => exact .refused (hoffsets.trans h) (hwarnings.subset hwarn)

theorem length_le (h : BlobMerge o offsets f kept added merged) :
    (merged.getD []).length ≤ (kept.getD []).length + (added.getD []).length := by
  cases h with
  | appended _ => exact Nat.le_of_eq List.length_append
  | kept _ | added _ | refused _ _ => simp

theorem offsets_cases (h : BlobMerge o offsets f kept added merged) :
    f.offsets = offsets ∨ ∃ offset, f.offsets = offsets.insert o.id offset := by
  cases h with
  | appended h => exact .inr ⟨_, h⟩
  | kept h | added h | refused h _ => exact .inl h

theorem nodup_keys (h : BlobMerge o offsets f kept added merged) (hkeys : offsets.keys.Nodup) :
    f.offsets.keys.Nodup := by
  rcases h.offsets_cases with heq | ⟨offset, heq⟩
  · rwa [heq]
  · rw [heq]
    exact Table.nodup_keys_insert hkeys _ _

theorem mem_keys (h : BlobMerge o offsets f kept added merged) {l : ModuleId}
    (hl : l ∈ f.offsets.keys) : l ∈ offsets.keys ∨ l = o.id := by
  rcases h.offsets_cases with heq | ⟨offset, heq⟩
  · exact .inl (heq ▸ hl)
  · rw [heq, Table.keys_insert] at hl
    split at hl
    · exact .inl hl
    · exact (List.mem_append.mp hl).imp_right List.mem_singleton.mp

theorem find?_of_ne (h : BlobMerge o offsets f kept added merged) {l : ModuleId}
    (hne : l ≠ o.id) : f.offsets.find? l = offsets.find? l := by
  rcases h.offsets_cases with heq | ⟨offset, heq⟩
  · rw [heq]
  · rw [heq, Table.find?_insert, if_neg hne]

theorem offsets_of_both {bytes payload : List UInt8} (h : BlobMerge o offsets f kept added merged)
    (hkept : kept = some bytes) (hadded : added = some payload) :
    f.offsets = offsets.insert o.id (min bytes.length (UInt32.size - 1)) := by
  subst hkept hadded
  cases h with
  | appended h => exact h

/-- A blob grows at its end only. -/
theorem exists_append {bytes : List UInt8} (h : BlobMerge o offsets f kept added merged)
    (hkept : kept = some bytes) : ∃ behind, merged = some (bytes ++ behind) := by
  subst hkept
  cases h with
  | appended _ => exact ⟨_, rfl⟩
  | kept _ => exact ⟨[], by rw [List.append_nil]⟩

/-- A payload that is not refused stands where its offset says, or at the start if it has none. -/
theorem exists_stands {payload : List UInt8} (h : BlobMerge o offsets f kept added merged)
    (hadded : added = some payload) (hfresh : offsets.find? o.id = none)
    (hsize : (kept.getD []).length < UInt32.size)
    (hno : ∀ path, .inconsistentResource o.name path ∉ f.warnings) :
    ∃ before behind, merged = some (before ++ payload ++ behind)
      ∧ (f.offsets.find? o.id).getD 0 = before.length := by
  subst hadded
  cases h with
  | @appended bytes _ hoffsets =>
    refine ⟨bytes, [], by rw [List.append_nil], ?_⟩
    rw [hoffsets, Table.find?_insert, if_pos rfl]
    exact Nat.min_eq_left (Nat.le_pred_of_lt hsize)
  | added hoffsets =>
    refine ⟨[], [], by simp, ?_⟩
    rw [hoffsets, hfresh]
    rfl
  | refused _ hwarn => exact absurd hwarn (hno _)

end BlobMerge

namespace ResourceOwner

variable {o : ResourceOwner}

theorem blobMerge_nameEntry (kept : ResourceDirectory) (f : ResourceFindings)
    (node : ResourceNode) :
    BlobMerge o f.offsets (o.mergeEntry [blobType] kept f (blobName, node)).2
      (kept.leaf? [blobName]) (ResourceDirectory.leaf? [(blobName, node)] [blobName])
      ((o.mergeEntry [blobType] kept f (blobName, node)).1.leaf? [blobName]) := by
  have hget := o.get?_mergeEntry [blobType] kept f blobName blobName node
  rw [if_pos rfl] at hget
  have hnode : ResourceDirectory.get? [(blobName, node)] blobName = some node := by
    rw [ResourceDirectory.get?_cons, if_pos rfl]
  simp only [ResourceDirectory.leaf?, hnode, hget]
  rw [mergeEntry]
  cases kept.get? blobName with
  | none => cases node <;> exact .added rfl
  | some known =>
    cases known with
    | data bytes =>
      cases node with
      | data added => exact .appended rfl
      | directory _ => exact .kept rfl
    | directory entries =>
      cases node with
      | data added => exact .refused rfl (List.mem_append_right _ (List.mem_singleton.mpr rfl))
      | directory added =>
        refine .added (o.offsets_mergeLevel (fun key hpre ↦ ?_) entries f added)
        exact absurd hpre.length_le (by simp [blobPath])

theorem blobMerge_nameLevel {added : ResourceDirectory} (hnodup : (added.map Prod.fst).Nodup)
    (kept : ResourceDirectory) (f : ResourceFindings) :
    BlobMerge o f.offsets (o.mergeLevel [blobType] kept f added).2 (kept.leaf? [blobName])
      (added.leaf? [blobName]) ((o.mergeLevel [blobType] kept f added).1.leaf? [blobName]) := by
  have hat := o.mergeLevel_at [blobType] blobName
    (fun key' hne ↦ by simpa [blobPath, blobType, blobName] using hne) hnodup kept f
  cases hadded : added.get? blobName with
  | none =>
    rw [hadded] at hat
    simp only [ResourceDirectory.leaf?, hadded, hat.1]
    exact .of_none hat.2
  | some node =>
    rw [hadded] at hat
    obtain ⟨kept', f', hkept, hoffsets, hget, hoffsets', hwarnings⟩ := hat
    have hentry := blobMerge_nameEntry (o := o) kept' f' node
    have hnode : ResourceDirectory.get? [(blobName, node)] blobName = some node := by
      rw [ResourceDirectory.get?_cons, if_pos rfl]
    simp only [ResourceDirectory.leaf?, hnode, hkept, hoffsets] at hentry
    simp only [ResourceDirectory.leaf?, hadded, hget]
    exact hentry.mono hoffsets' hwarnings

theorem blobMerge_typeEntry {node : ResourceNode} (hunique : node.uniqueKeys = true)
    (kept : ResourceDirectory) (f : ResourceFindings) :
    BlobMerge o f.offsets (o.mergeEntry [] kept f (blobType, node)).2 kept.blob?
      (ResourceDirectory.blob? [(blobType, node)])
      (o.mergeEntry [] kept f (blobType, node)).1.blob? := by
  have hget := o.get?_mergeEntry [] kept f blobType blobType node
  rw [if_pos rfl] at hget
  have hnode : ResourceDirectory.get? [(blobType, node)] blobType = some node := by
    rw [ResourceDirectory.get?_cons, if_pos rfl]
  simp only [ResourceDirectory.blob?_eq, hnode, hget]
  rw [mergeEntry]
  cases kept.get? blobType with
  | none => cases node <;> exact .added rfl
  | some known =>
    cases known with
    | data bytes =>
      cases node with
      | data added =>
        have hpath : [blobType] ≠ blobPath := by simp [blobPath]
        exact .added (o.offsets_mergeData hpath bytes added f)
      | directory added =>
        dsimp only
        cases ResourceDirectory.leaf? added [blobName] with
        | none => exact .added rfl
        | some _ => exact .refused rfl (List.mem_append_right _ (List.mem_singleton.mpr rfl))
    | directory entries =>
      cases node with
      | data added => exact .of_none rfl
      | directory added =>
        exact blobMerge_nameLevel (ResourceDirectory.UniqueKeys.nodup hunique) entries f

/-- What a tree without repeated keys does to the blob. -/
theorem blobMerge_mergeTree {added : ResourceDirectory} (hunique : added.UniqueKeys)
    (kept : ResourceDirectory) (f : ResourceFindings) :
    BlobMerge o f.offsets (o.mergeTree kept f added).2 kept.blob? added.blob?
      (o.mergeTree kept f added).1.blob? := by
  have hat := o.mergeLevel_at [] blobType
    (fun key' hne ↦ by simpa [blobPath, blobType] using hne) hunique.nodup kept f
  unfold mergeTree
  cases hadded : added.get? blobType with
  | none =>
    rw [hadded] at hat
    simp only [ResourceDirectory.blob?_eq, hadded, hat.1]
    exact .of_none hat.2
  | some node =>
    rw [hadded] at hat
    obtain ⟨kept', f', hkept, hoffsets, hget, hoffsets', hwarnings⟩ := hat
    have hbelow := (Bool.and_eq_true_iff.mp hunique).2
    have hentry := blobMerge_typeEntry (o := o)
      (ResourceDirectory.uniqueKeys_of_get? hbelow hadded) kept' f'
    have hnode : ResourceDirectory.get? [(blobType, node)] blobType = some node := by
      rw [ResourceDirectory.get?_cons, if_pos rfl]
    simp only [ResourceDirectory.blob?_eq, hnode, hkept, hoffsets] at hentry
    simp only [ResourceDirectory.blob?_eq, hadded, hget]
    exact hentry.mono hoffsets' hwarnings

end ResourceOwner

/-! ## The blob of a link

The blob grows at its end, so a payload that stands in it stays where it is. The offset of a
module is the length of what was there before. -/

/-- The payload of a module for the blob. -/
def Module.blob? (m : Module) : Option (List UInt8) := m.resources.bind ResourceDirectory.blob?

/-- How much a module adds to the blob. -/
def Module.blobSize (m : Module) : Nat := (m.blob?.getD []).length

/-- What a module does to the blob, if its tree lists no key twice in a directory. -/
theorem blobMerge_module {ctx : Context} {m : ModuleId}
    (hunique : ∀ tree, (ctx.module m).resources = some tree → tree.UniqueKeys)
    (merged : Option ResourceDirectory × ResourceFindings) :
    BlobMerge ⟨m, (ctx.module m).name⟩ merged.2.offsets (mergeModuleResources ctx merged m).2
        (merged.1.bind ResourceDirectory.blob?) (ctx.module m).blob?
        ((mergeModuleResources ctx merged m).1.bind ResourceDirectory.blob?)
      ∧ merged.2.warnings <+: (mergeModuleResources ctx merged m).2.warnings := by
  obtain ⟨known, f⟩ := merged
  unfold mergeModuleResources Module.blob?
  cases htree : (ctx.module m).resources with
  | none => exact ⟨.of_none rfl, List.prefix_refl _⟩
  | some tree =>
    cases known with
    | none => exact ⟨.added rfl, List.prefix_refl _⟩
    | some kept =>
      exact ⟨ResourceOwner.blobMerge_mergeTree (hunique tree htree) kept f,
        ResourceOwner.warnings_mergeLevel _ [] kept f tree⟩

/-- Where the payloads of modules stand in the blob. -/
structure BlobLayout (ctx : Context) (done : List ModuleId)
    (merged : Option ResourceDirectory × ResourceFindings) : Prop where
  size : ((merged.1.bind ResourceDirectory.blob?).getD []).length
    ≤ (done.map fun m ↦ (ctx.module m).blobSize).sum
  keys : merged.2.offsets.keys.Nodup
  noted : ∀ m ∈ merged.2.offsets.keys, m ∈ done
  /-- A payload that nothing stood in the way of stands at its offset, or at the start. -/
  stands : ∀ m ∈ done, ∀ payload, (ctx.module m).blob? = some payload →
    (∀ path, .inconsistentResource (ctx.module m).name path ∉ merged.2.warnings) →
    ∃ before behind, merged.1.bind ResourceDirectory.blob? = some (before ++ payload ++ behind)
      ∧ (merged.2.offsets.find? m).getD 0 = before.length

namespace BlobLayout

variable {ctx : Context} {done : List ModuleId}
  {merged merged' : Option ResourceDirectory × ResourceFindings}

theorem step (h : BlobLayout ctx done merged) {m : ModuleId} (hnew : m ∉ done)
    (hsize : (done.map fun m ↦ (ctx.module m).blobSize).sum < UInt32.size)
    (hmerge : BlobMerge ⟨m, (ctx.module m).name⟩ merged.2.offsets merged'.2
      (merged.1.bind ResourceDirectory.blob?) (ctx.module m).blob?
      (merged'.1.bind ResourceDirectory.blob?))
    (hwarnings : merged.2.warnings <+: merged'.2.warnings) :
    BlobLayout ctx (done ++ [m]) merged' where
  size := by
    refine hmerge.length_le.trans ?_
    rw [List.map_append, List.sum_append, List.map_singleton, List.sum_singleton]
    exact Nat.add_le_add_right h.size _
  keys := hmerge.nodup_keys h.keys
  noted l hl := by
    rw [List.mem_append, List.mem_singleton]
    exact (hmerge.mem_keys hl).imp_left (h.noted l)
  stands l hl payload hpayload hno := by
    rcases List.mem_append.mp hl with hl | hl
    · have hne : l ≠ m := fun heq ↦ hnew (heq ▸ hl)
      obtain ⟨before, behind, hblob, hoffset⟩ := h.stands l hl payload hpayload
        fun path hmem ↦ hno path (hwarnings.subset hmem)
      obtain ⟨behind', hblob'⟩ := hmerge.exists_append hblob
      refine ⟨before, behind ++ behind', by rw [hblob']; simp, ?_⟩
      rw [hmerge.find?_of_ne hne]
      exact hoffset
    · obtain rfl := List.mem_singleton.mp hl
      have hfresh : merged.2.offsets.find? l = none :=
        Option.eq_none_iff_forall_ne_some.mpr fun _ hfind ↦
          hnew (h.noted l (Table.mem_keys_of_find? hfind))
      exact hmerge.exists_stands hpayload hfresh (Nat.lt_of_le_of_lt h.size hsize) hno

end BlobLayout

/-- The payloads of all modules stand in the blob of a link, if they are not too large together. -/
theorem blobLayout_foldl {ctx : Context} {order : List ModuleId} (hnodup : order.Nodup)
    (hunique : ∀ m tree, (ctx.module m).resources = some tree → tree.UniqueKeys)
    (hsize : (order.map fun m ↦ (ctx.module m).blobSize).sum < UInt32.size) :
    BlobLayout ctx order (order.foldl (mergeModuleResources ctx) (none, {})) := by
  induction order using List.reverseRecOn with
  | nil => exact ⟨Nat.le_refl _, List.nodup_nil, fun _ h ↦ (by cases h), fun _ h ↦ by cases h⟩
  | append_singleton done m ih =>
    obtain ⟨hdone, -, hdisjoint⟩ := List.nodup_append.mp hnodup
    have hnew : m ∉ done := fun hm ↦ hdisjoint m hm m (List.mem_singleton.mpr rfl) rfl
    have hsize' : (done.map fun m ↦ (ctx.module m).blobSize).sum < UInt32.size := by
      simp only [List.map_append, List.sum_append] at hsize
      omega
    rw [List.foldl_append]
    obtain ⟨hmerge, hwarnings⟩ := blobMerge_module (hunique m)
      (done.foldl (mergeModuleResources ctx) (none, {}))
    exact (ih hdone hsize').step hnew hsize' hmerge hwarnings

end ModuleLinker
