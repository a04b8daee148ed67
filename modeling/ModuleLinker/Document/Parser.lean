import ModuleLinker.Document.Scalar

/-!
# Reading documents

A document text is a list of statements: entries, headers that open a table, and headers that add a
table to an array of tables. A key is entered once, a table is opened once, and what stands in
braces or brackets is complete.

Keys have at most eighty parts, and brackets and braces are nested at most eighty deep.
-/

namespace ModuleLinker.Document

/-! ## Between the values -/

def isSpace (c : Char) : Bool := c = ' ' || c = '\t'

def skipSpace (s : List Char) : List Char := s.dropWhile isSpace

/-- The text behind white space, line ends and comments. -/
def skipLines : (inComment : Bool) → List Char → List Char
  | _, [] => []
  | true, '\n' :: rest => skipLines false rest
  | true, _ :: rest => skipLines true rest
  | false, '\r' :: '\n' :: rest => skipLines false rest
  | false, c :: rest =>
    if isSpace c || c = '\n' then skipLines false rest
    else if c = '#' then skipLines true rest
    else c :: rest

/-- The text behind the end of a line, which may have a comment. -/
def endLine (s : List Char) : Option (List Char) :=
  match skipSpace s with
  | [] => some []
  | '\n' :: rest => some rest
  | '\r' :: '\n' :: rest => some rest
  | '#' :: rest => some ((rest.dropWhile (· ≠ '\n')).drop 1)
  | _ => none

/-! ## Keys -/

def isBareKeyChar (c : Char) : Bool := c.isAlphanum || c = '_' || c = '-'

/-- One part of a key. -/
def scanKeyPart (s : List Char) : Option (String × List Char) :=
  match s with
  | '\x22' :: rest => (scanEscaped false .plain rest).map fun (cs, rest) ↦ (String.ofList cs, rest)
  | '\x27' :: rest => (scanLiteral false rest).map fun (cs, rest) ↦ (String.ofList cs, rest)
  | _ =>
    let part := s.takeWhile isBareKeyChar
    if part.isEmpty then none else some (String.ofList part, s.dropWhile isBareKeyChar)

/-- A key of at most so many parts, separated by points. -/
def scanParts : (most : Nat) → Scanner (List String)
  | 0, _ => none
  | most + 1, s => do
    let (part, rest) ← scanKeyPart (skipSpace s)
    match skipSpace rest with
    | '.' :: rest => do
      let (parts, rest) ← scanParts most rest
      return (part :: parts, rest)
    | rest => return ([part], rest)

/-- How many parts a key may have, and how deep brackets may be nested. -/
def maxNesting : Nat := 80

/-- A key. -/
def scanKey : Scanner (List String) := scanParts maxNesting

/-! ## Tables under construction -/

/-- What a key leads to while a text is read. -/
inductive Entry
  /-- A complete value. -/
  | value (d : Document)
  /-- A table; it may still be opened when it has only been named on the way to another. -/
  | table (opened : Bool) (entries : List (String × Entry))
  /-- An array of tables, the latest first, which is being filled. -/
  | tables (latestFirst : List (List (String × Entry)))

/-- The entries of a table. -/
abbrev Entries := List (String × Entry)

namespace Entry

mutual

def toDocument : Entry → Document
  | .value d => d
  | .table _ entries => .table (toDocuments entries)
  | .tables latestFirst => .array (tableDocuments latestFirst).reverse

def entryDocument : String × Entry → String × Document
  | (key, e) => (key, e.toDocument)

def toDocuments : Entries → List (String × Document)
  | [] => []
  | e :: rest => entryDocument e :: toDocuments rest

def tableDocuments : List Entries → List Document
  | [] => []
  | entries :: rest => .table (toDocuments entries) :: tableDocuments rest

end

end Entry

/-- Replace the entry of a key, which is there, or add one. -/
def setEntry (key : String) (e : Entry) : Entries → Entries
  | [] => [(key, e)]
  | known :: rest => if known.1 = key then (key, e) :: rest else known :: setEntry key e rest

/-- Change the table that a path leads to. Tables on the way are made when they are missing, and of
an array of tables the last one is meant. -/
def updateAt (change : Entries → Option Entries) : List String → Entries → Option Entries
  | [], entries => change entries
  | key :: path, entries =>
    match entries.lookup key with
    | none => do
      let inner ← updateAt change path []
      return entries ++ [(key, .table false inner)]
    | some (.table opened inner) => do
      let inner ← updateAt change path inner
      return setEntry key (.table opened inner) entries
    | some (.tables []) => none
    | some (.tables (latest :: earlier)) => do
      let latest ← updateAt change path latest
      return setEntry key (.tables (latest :: earlier)) entries
    | some (.value _) => none

/-- Enter a value under a new key. -/
def assign (path : List String) (d : Document) (entries : Entries) : Option Entries := do
  let key ← path.getLast?
  updateAt (fun inner ↦
    if (inner.lookup key).isSome then none else some (inner ++ [(key, .value d)]))
    path.dropLast entries

/-- Open a table. -/
def openTable (path : List String) (entries : Entries) : Option Entries := do
  let key ← path.getLast?
  updateAt (fun inner ↦
    match inner.lookup key with
    | none => some (inner ++ [(key, .table true [])])
    | some (.table false known) => some (setEntry key (.table true known) inner)
    | some _ => none) path.dropLast entries

/-- Add a table to an array of tables. -/
def addTable (path : List String) (entries : Entries) : Option Entries := do
  let key ← path.getLast?
  updateAt (fun inner ↦
    match inner.lookup key with
    | none => some (inner ++ [(key, .tables [[]])])
    | some (.tables earlier) => some (setEntry key (.tables ([] :: earlier)) inner)
    | some _ => none) path.dropLast entries

/-! ## Values

`bound` is at least the number of characters left; `room` says how many more brackets and braces may
be opened inside each other. -/

mutual

/-- A value. -/
def scanValue : (bound room : Nat) → Scanner Document
  | 0, _, _ => none
  | bound + 1, room, s =>
    match s, room with
    | '[' :: rest, room + 1 => do
      let (items, rest) ← scanItems bound room (skipLines false rest)
      return (.array items, rest)
    | '\x7b' :: rest, room + 1 => do
      match skipSpace rest with
      | '\x7d' :: rest => return (.table [], rest)
      | rest => do
        let (entries, rest) ← scanEntries bound room [] rest
        return (.table (Entry.toDocuments entries), rest)
    | '\x22' :: _, _ | '\x27' :: _, _ =>
      (scanString s).map fun (quoted, rest) ↦ (.text quoted, rest)
    | _, _ => scanWord s

/-- The rest of an array. -/
def scanItems : (bound room : Nat) → Scanner (List Document)
  | 0, _, _ => none
  | bound + 1, room, s =>
    match s with
    | ']' :: rest => some ([], rest)
    | _ => do
      let (d, rest) ← scanValue bound room s
      match skipLines false rest with
      | ',' :: rest => do
        let (items, rest) ← scanItems bound room (skipLines false rest)
        return (d :: items, rest)
      | ']' :: rest => return ([d], rest)
      | _ => none

/-- The rest of a table in braces. -/
def scanEntries : (bound room : Nat) → Entries → Scanner Entries
  | 0, _, _, _ => none
  | bound + 1, room, entries, s => do
    let (path, rest) ← scanKey s
    let rest ← expect ['='] (skipSpace rest)
    let (d, rest) ← scanValue bound room (skipSpace rest)
    let entries ← assign path d entries
    match skipSpace rest with
    | ',' :: rest => scanEntries bound room entries rest
    | '\x7d' :: rest => return (entries, rest)
    | _ => none

end

/-! ## Statements -/

/-- The tables that have been read, and the path of the one that entries go to. -/
structure Draft where
  entries : Entries := []
  current : List String := []

/-- One statement of a text that is shorter than `bound`. -/
def scanStatement (bound : Nat) (draft : Draft) (s : List Char) : Option (Draft × List Char) := do
  match expect ['[', '['] s, s with
  | some rest, _ =>
    let (path, rest) ← scanKey rest
    let rest ← expect [']', ']'] rest
    return ({ entries := ← addTable path draft.entries, current := path }, ← endLine rest)
  | none, '[' :: rest =>
    let (path, rest) ← scanKey rest
    let rest ← expect [']'] rest
    return ({ entries := ← openTable path draft.entries, current := path }, ← endLine rest)
  | none, _ =>
    let (path, rest) ← scanKey s
    let rest ← expect ['='] (skipSpace rest)
    let (d, rest) ← scanValue bound maxNesting (skipSpace rest)
    let entries ← assign (draft.current ++ path) d draft.entries
    return ({ draft with entries }, ← endLine rest)

/-- The statements up to the end of a text that is shorter than `bound`. -/
def scanStatements : (bound : Nat) → Draft → List Char → Option Draft
  | 0, _, _ => none
  | bound + 1, draft, s =>
    match skipLines false s with
    | [] => some draft
    | s => do
      let (draft, rest) ← scanStatement (bound + 1) draft s
      scanStatements bound draft rest

/-- The document that a text holds. -/
def parse (text : String) : Option Document := do
  let s := text.toList
  let draft ← scanStatements (s.length + 1) {} s
  return .table (Entry.toDocuments draft.entries)

end ModuleLinker.Document
