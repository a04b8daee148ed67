import ModuleLinker.Context
import ModuleLinker.Report

/-!
# Merging resource trees

The trees of the modules are merged in import order, level by level and key by key. What is there
first stays: a second payload under the same path is dropped with a warning, and so is a payload
that meets a directory.

Two places are special. The appendable blob grows by the payload of every module, and the merge
keeps where each payload starts. Version metadata is the primary's, and that of other modules is
dropped without a word.
-/

namespace ModuleLinker

/-- The path of the blob that is appended to. -/
def blobPath : List ResourceKey := [.id 0x3FF, .id 101]

/-- The paths of version metadata, one for each language it is stored in. -/
def versionPaths : List (List ResourceKey) := [0, 1033].map fun language ↦
  [.id 16, .id 1, .id language]

/-- A path as it is shown to the user. -/
def pathText (path : List ResourceKey) : String := "/".intercalate (path.map ResourceKey.text)

/-- What merging found so far. -/
structure ResourceFindings where
  /-- Where the payload of each module starts in the appended blob. -/
  offsets : Table ModuleId Nat := {}
  warnings : List Warning := []
deriving DecidableEq

namespace ResourceFindings

def warn (f : ResourceFindings) (w : Warning) : ResourceFindings :=
  { f with warnings := f.warnings ++ [w] }

/-- Note where a payload starts; offsets are kept in 32 bits. -/
def noteOffset (f : ResourceFindings) (m : ModuleId) (offset : Nat) : ResourceFindings :=
  { f with offsets := f.offsets.insert m (min offset (UInt32.size - 1)) }

end ResourceFindings

/-- The module whose tree is merged into the others. -/
structure ResourceOwner where
  id : ModuleId
  name : String
deriving DecidableEq

namespace ResourceOwner

/-- Merge a payload into the payload at the same path. -/
def mergeData (o : ResourceOwner) (path : List ResourceKey) (kept added : List UInt8)
    (f : ResourceFindings) : List UInt8 × ResourceFindings :=
  if path = blobPath then (kept ++ added, f.noteOffset o.id kept.length)
  else if versionPaths.contains path then (kept, f)
  else (kept, f.warn (.resourceCollision o.name (pathText path)))

mutual

/-- Merge a node into the node at the same path. -/
def mergeNode (o : ResourceOwner) (path : List ResourceKey) (kept : ResourceNode)
    (f : ResourceFindings) : (added : ResourceNode) → ResourceNode × ResourceFindings
  | .data added =>
    match kept with
    | .data bytes =>
      let (bytes, f) := o.mergeData path bytes added f
      (.data bytes, f)
    | .directory _ => (kept, f.warn (.inconsistentResource o.name (pathText path)))
  | .directory added =>
    match kept with
    | .directory entries =>
      let (entries, f) := o.mergeLevel path entries f added
      (.directory entries, f)
    | .data _ => (kept, f.warn (.inconsistentResource o.name (pathText path)))

/-- Merge an entry into the level below a path. -/
def mergeEntry (o : ResourceOwner) (path : List ResourceKey) (kept : ResourceDirectory)
    (f : ResourceFindings) : (added : ResourceKey × ResourceNode) →
      ResourceDirectory × ResourceFindings
  | (key, added) =>
    match kept.get? key with
    | some known =>
      let (node, f) := o.mergeNode (path ++ [key]) known f added
      (kept.replace key node, f)
    | none => (kept.insert key added, f)

/-- Merge the entries of a level into the level below a path. -/
def mergeLevel (o : ResourceOwner) (path : List ResourceKey) (kept : ResourceDirectory)
    (f : ResourceFindings) : (added : ResourceDirectory) → ResourceDirectory × ResourceFindings
  | [] => (kept, f)
  | entry :: rest =>
    let (kept, f) := o.mergeEntry path kept f entry
    o.mergeLevel path kept f rest

end

/-- Merge the tree of a module into a tree. -/
def mergeTree (o : ResourceOwner) (kept : ResourceDirectory) (f : ResourceFindings)
    (added : ResourceDirectory) : ResourceDirectory × ResourceFindings :=
  o.mergeLevel [] kept f added

end ResourceOwner

/-- Merge the tree of a module into what the modules before it gave. The first tree is taken as it
is. -/
def mergeModuleResources (ctx : Context)
    (merged : Option ResourceDirectory × ResourceFindings) (m : ModuleId) :
    Option ResourceDirectory × ResourceFindings :=
  match (ctx.module m).resources, merged with
  | none, _ => merged
  | some tree, (none, f) => (some tree, f)
  | some tree, (some kept, f) =>
    let owner : ResourceOwner := { id := m, name := (ctx.module m).name }
    let (kept, f) := owner.mergeTree kept f tree
    (some kept, f)

/-- The merged trees of all modules; nothing when no module has one. -/
def mergeResources (ctx : Context) : Option ResourceDirectory × ResourceFindings :=
  ctx.registry.importOrder.foldl (mergeModuleResources ctx) (none, {})

end ModuleLinker
