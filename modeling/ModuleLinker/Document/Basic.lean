import ModuleLinker.Image.Instruction

/-!
# Documents

Module images and settings are kept in documents: trees of named tables, arrays and plain values. A
type with a `Codec` has one way of being written into a document and one way of being read back.
What a document holds beyond the keys that a type reads is ignored; a missing key, or a value of
another shape, makes reading fail.

A record is written as a table of its fields. It may also be read from an array, which holds the
fields in their order and may end early where all further fields have defaults.

The variants of a sum are written as the variant's name when it has no data, and as a table with the
name as its only key when it has. A variant without data may also be read from such a table, with
nothing under the name.
-/

namespace ModuleLinker

/-- A tree of named tables, arrays and plain values. -/
inductive Document
  | bool (value : Bool)
  | int (value : Int)
  | float (value : Double)
  | text (value : String)
  | array (items : List Document)
  | table (entries : List (String × Document))
deriving Inhabited

namespace Document

mutual

/-- How deeply tables and arrays are nested, a plain value counting one. -/
def depth : Document → Nat
  | .array items => depthOfItems items + 1
  | .table entries => depthOfEntries entries + 1
  | _ => 1

def depthOfItems : List Document → Nat
  | [] => 0
  | d :: rest => max (depth d) (depthOfItems rest)

def depthOfEntry : String × Document → Nat
  | (_, d) => depth d

def depthOfEntries : List (String × Document) → Nat
  | [] => 0
  | e :: rest => max (depthOfEntry e) (depthOfEntries rest)

end

/-- The value under a key of a table. -/
def get? : Document → String → Option Document
  | .table entries, key => entries.lookup key
  | _, _ => none

/-- The items of an array. -/
def items? : Document → Option (List Document)
  | .array items => some items
  | _ => none

/-- The entries of a table. -/
def entries? : Document → Option (List (String × Document))
  | .table entries => some entries
  | _ => none

/-- Whether a table has no keys but the given ones. -/
def hasOnlyKeys : Document → List String → Bool
  | .table entries, keys => entries.all fun e ↦ keys.contains e.1
  | _, _ => false

/-- The name of a variant without data. -/
def name? : Document → Option String
  | .text name | .table [(name, .table [])] | .table [(name, .array [])] => some name
  | _ => none

/-- The name and the data of a variant with data. -/
def variant? : Document → Option (String × Document)
  | .table [entry] => some entry
  | _ => none

end Document

/-- Where a document comes from, which decides how strictly its records are read. -/
inductive Document.Origin
  /-- The text of a file. A record that is an array may have more items than fields; the data of a
  variant may not have keys that nobody reads. -/
  | file
  /-- A value that another program hands over. A record that is an array may not have more items
  than fields; the data of a variant may have further keys. -/
  | message
deriving DecidableEq, Inhabited

/-- What is read from a document of some origin, unless it cannot be read. -/
abbrev Document.Reading := ReaderT Document.Origin Option

/-- How values of a type are written into documents and read back. -/
class Codec (α : Type) where
  encode : α → Document
  decode? : Document → Document.Reading α

namespace Document

/-- A record as a table of its fields, given their names and how many of them come up to the last
one without a default. -/
def record (d : Document) (fields : List String) (needed : Nat) : Reading Document := do
  match d with
  | .table entries => return .table entries
  | .array items =>
    let origin ← read
    guard (needed ≤ items.length ∧ (origin = .message → items.length ≤ fields.length))
    return .table (fields.zip items)
  | _ => failure

/-- The data of a variant as a table of its fields, all of which are needed up to the given
number. -/
def variantRecord (d : Document) (fields : List String) (needed : Nat) : Reading Document := do
  let origin ← read
  match d with
  | .table _ => guard (origin = .file → d.hasOnlyKeys fields)
  | _ => pure ()
  d.record fields needed

/-- The value under a key, which must be there. -/
def required {α : Type} [Codec α] (d : Document) (key : String) : Reading α := do
  Codec.decode? (← d.get? key)

/-- The value under a key, or a default when the key is missing. -/
def withDefault {α : Type} [Codec α] (d : Document) (key : String) (default : α) : Reading α :=
  match d.get? key with
  | some value => Codec.decode? value
  | none => return default

/-- The value under a key, if the key is there. -/
def optional {α : Type} [Codec α] (d : Document) (key : String) : Reading (Option α) :=
  match d.get? key with
  | some value => some <$> Codec.decode? value
  | none => return none

/-- The entry for a value that may be missing. -/
def optionalEntry {α : Type} [Codec α] (key : String) : Option α → List (String × Document)
  | some value => [(key, Codec.encode value)]
  | none => []

/-- A variant with data. -/
def variant {α : Type} [Codec α] (name : String) (data : α) : Document :=
  .table [(name, Codec.encode data)]

end Document

namespace Codec

instance : Codec Document := ⟨id, pure⟩

instance : Codec Bool where
  encode := .bool
  decode?
    | .bool b => pure b
    | _ => failure

instance : Codec String where
  encode := .text
  decode?
    | .text s => pure s
    | _ => failure

instance : Codec Double where
  encode := .float
  decode?
    | .float x => pure x
    | .int n => pure ⟨(Float.ofInt n).toBits⟩
    | _ => failure

/-- Whole numbers from 0 to a bound. -/
@[reducible] def bounded {α : Type} (bound : Nat) (toNat : α → Nat) (ofNat : Nat → α) :
    Codec α where
  encode x := .int (toNat x)
  decode?
    | .int (.ofNat n) => if n < bound then pure (ofNat n) else failure
    | _ => failure

instance : Codec UInt8 := bounded UInt8.size UInt8.toNat UInt8.ofNat

instance : Codec UInt16 := bounded UInt16.size UInt16.toNat UInt16.ofNat

/-- Positions in a body. -/
instance : Codec Nat := bounded (Nat.pow 2 63) id id

instance : Codec Int32 where
  encode x := .int x.toInt
  decode?
    | .int n =>
      if Int32.minValue.toInt ≤ n ∧ n ≤ Int32.maxValue.toInt then pure (Int32.ofInt n) else failure
    | _ => failure

instance : Codec Int64 where
  encode x := .int x.toInt
  decode?
    | .int n =>
      if Int64.minValue.toInt ≤ n ∧ n ≤ Int64.maxValue.toInt then pure (Int64.ofInt n) else failure
    | _ => failure

instance {α : Type} [Codec α] : Codec (List α) where
  encode xs := .array (xs.map encode)
  decode? d := do (← d.items?).mapM decode?

/-- The variants of a sum without data, with their names. -/
@[reducible] def named {α : Type} [DecidableEq α] (names : List (α × String)) : Codec α where
  encode x := .text ((names.lookup x).getD "")
  decode? d := do
    let name ← d.name?
    (names.find? fun entry ↦ entry.2 = name).map Prod.fst

end Codec

end ModuleLinker
