/-!
# Embedded resource trees

A resource directory lists entries, each a key and either a payload or another directory. Lookups
see the first entry with a key.
-/

namespace ModuleLinker

/-- Key of a resource at one level of the tree. -/
inductive ResourceKey
  | id (number : Nat)
  | name (text : String)
deriving DecidableEq, Inhabited

/-- Numbers are written after a hash sign, names as they are. -/
def ResourceKey.text : ResourceKey → String
  | .id number => "#" ++ toString number
  | .name text => text

/-- A payload, or a directory of further entries. -/
inductive ResourceNode
  | data (bytes : List UInt8)
  | directory (entries : List (ResourceKey × ResourceNode))
deriving Inhabited

/-- One level of a resource tree. -/
abbrev ResourceDirectory := List (ResourceKey × ResourceNode)

namespace ResourceDirectory

/-- The node of the first entry with a key. -/
def get? (d : ResourceDirectory) (key : ResourceKey) : Option ResourceNode := d.lookup key

/-- Replace the node of the first entry with a key; other entries stay as they are. -/
def replace (key : ResourceKey) (node : ResourceNode) : ResourceDirectory → ResourceDirectory
  | [] => []
  | e :: rest => if e.1 = key then (e.1, node) :: rest else e :: replace key node rest

/-- Replace the node of the first entry with the key, or append an entry. -/
def insert (d : ResourceDirectory) (key : ResourceKey) (node : ResourceNode) : ResourceDirectory :=
  match d.get? key with
  | some _ => d.replace key node
  | none => d ++ [(key, node)]

end ResourceDirectory

mutual

/-- Resource nodes are equal when they hold the same entries in the same order. -/
def ResourceNode.decEq : (a b : ResourceNode) → Decidable (a = b)
  | .data a, .data b => if h : a = b then isTrue (by rw [h]) else isFalse (by simpa using h)
  | .directory a, .directory b =>
    match ResourceNode.decEqEntries a b with
    | isTrue h => isTrue (by rw [h])
    | isFalse h => isFalse (by simpa using h)
  | .data _, .directory _ => isFalse (by simp)
  | .directory _, .data _ => isFalse (by simp)

/-- The same for entries. -/
def ResourceNode.decEqEntry : (a b : ResourceKey × ResourceNode) → Decidable (a = b)
  | (k, a), (l, b) =>
    if h : k = l then
      match ResourceNode.decEq a b with
      | isTrue h' => isTrue (by rw [h, h'])
      | isFalse h' => isFalse (by simp [h'])
    else isFalse (by simp [h])

/-- The same for levels. -/
def ResourceNode.decEqEntries : (a b : ResourceDirectory) → Decidable (a = b)
  | [], [] => isTrue rfl
  | e :: es, f :: fs =>
    match ResourceNode.decEqEntry e f, ResourceNode.decEqEntries es fs with
    | isTrue h, isTrue h' => isTrue (by rw [h, h'])
    | isFalse h, _ => isFalse (by simp [h])
    | _, isFalse h => isFalse (by simp [h])
  | [], _ :: _ => isFalse (by simp)
  | _ :: _, [] => isFalse (by simp)

end

instance : DecidableEq ResourceNode := ResourceNode.decEq

end ModuleLinker
