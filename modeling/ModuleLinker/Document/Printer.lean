import ModuleLinker.Decimal.Shortest
import ModuleLinker.Document.Basic

/-!
# Writing documents

A document is written as a TOML text. A table is a section: a header with the path that leads to
it, a line for each plain entry, and then the sections of the tables in it. An array that holds
tables only is a row of such sections, one for each item. All else stands on the line of its entry,
arrays in brackets and the tables in them in braces.
-/

namespace ModuleLinker.Document

/-- A number in four hexadecimal digits. -/
def fourDigits (n : Nat) : String :=
  let digits := Nat.toDigits 16 n
  String.ofList (List.replicate (4 - digits.length) '0' ++ digits)

/-- A character as it stands in a string. -/
def printChar (c : Char) : String :=
  if c = '\x22' then "\\\"" else if c = '\\' then "\\\\"
  else if c.toNat < 0x20 || c.toNat = 0x7f then "\\u" ++ fourDigits c.toNat
  else c.toString

/-- A string between quotes. -/
def printString (s : String) : String := "\"" ++ String.join (s.toList.map printChar) ++ "\""

/-- Whether a key can stand without quotes. -/
def isBareKey (key : String) : Bool :=
  key ≠ "" && key.toList.all fun c ↦ c.isAlphanum || c = '_' || c = '-'

def printKey (key : String) : String := if isBareKey key then key else printString key

/-- A number with a point, so that it is read back as one. -/
def printDouble (x : Double) : String :=
  if x.exponentBits = Nat.pow 2 11 - 1 then
    if x.fractionBits ≠ 0 then "nan" else if x.isNegative then "-inf" else "inf"
  else if x.text.toList.contains '.' then x.text else x.text ++ ".0"

mutual

/-- A value on one line. -/
def printValue : Document → String
  | .bool value => if value then "true" else "false"
  | .int value => toString value
  | .float value => printDouble value
  | .text value => printString value
  | .array items => "[" ++ ", ".intercalate (printItems items) ++ "]"
  | .table entries => "\x7b " ++ ", ".intercalate (printEntries entries) ++ " \x7d"

def printItems : List Document → List String
  | [] => []
  | d :: rest => printValue d :: printItems rest

def printEntry : String × Document → String
  | (key, d) => printKey key ++ " = " ++ printValue d

def printEntries : List (String × Document) → List String
  | [] => []
  | e :: rest => printEntry e :: printEntries rest

end

/-- Whether a value is a table. -/
def isTable : Document → Bool
  | .table _ => true
  | _ => false

/-- Whether a value has sections of its own. -/
def hasSections : Document → Bool
  | .table _ => true
  | .array items => !items.isEmpty && items.all isTable
  | _ => false

mutual

/-- The lines of a table behind its header; `path` leads to the table, with a point at the end. -/
def printTable (path : String) : Document → List String
  | .table entries =>
    ((entries.filter fun e ↦ !hasSections e.2).map printEntry) ++ printSections path entries
  | _ => []

/-- The sections of the entries of a table. -/
def printSections (path : String) : List (String × Document) → List String
  | [] => []
  | e :: rest => printSection path e ++ printSections path rest

/-- The sections of an entry. -/
def printSection (path : String) : String × Document → List String
  | (key, d) =>
    let name := path ++ printKey key
    match d with
    | .table entries => ("[" ++ name ++ "]") :: printTable (name ++ ".") (.table entries)
    | .array items =>
      if !items.isEmpty && items.all isTable then printRow name items else []
    | _ => []

/-- The sections of the items of an array of tables. -/
def printRow (name : String) : List Document → List String
  | [] => []
  | d :: rest => ("[[" ++ name ++ "]]") :: (printTable (name ++ ".") d ++ printRow name rest)

end

/-- The text of a document. -/
def print (d : Document) : String :=
  String.join ((printTable "" d).map fun line ↦ line ++ "\n")

end ModuleLinker.Document
