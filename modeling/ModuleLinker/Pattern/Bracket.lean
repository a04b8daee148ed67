import ModuleLinker.Pattern.Escape

/-!
# Classes in brackets

A class in brackets is read before it is known whether case is ignored, for a flag that stands
elsewhere decides. So a class is read in both ways at once. Where case is ignored, the members of a
bracket are made caseless before the bracket is complemented, and so are the operands of an
operation before it is applied.
-/

namespace ModuleLinker.Pattern

/-- A written class. -/
structure ClassItem where
  /-- The members when case is told apart. -/
  caseful : CharClass
  /-- The members when case is ignored. -/
  caseless : CharClass
  /-- How deep brackets and operations are nested. -/
  height : Nat := 0
deriving DecidableEq, Inhabited

namespace ClassItem

/-- The members of a class. -/
def members (i : ClassItem) (ignoreCase : Bool) : CharClass :=
  if ignoreCase then i.caseless else i.caseful

/-- A class that is the same in both ways, or is made caseless by the bracket around it. -/
def plain (cls : CharClass) : ClassItem := { caseful := cls, caseless := cls }

/-- A class of its own, which may be complemented. -/
def closed (negated : Bool) (i : ClassItem) : ClassItem :=
  if negated then
    { i with caseful := i.caseful.complement, caseless := i.caseless.caseless.complement }
  else { i with caseless := i.caseless.caseless }

/-- The items between two operations. -/
def ofItems : List ClassItem → ClassItem
  | [i] => i
  | is => {
    caseful := .unions (is.map caseful)
    caseless := .unions (is.map caseless)
    height := if is.isEmpty then 0 else (is.map height).foldl max 0 + 1 }

end ClassItem

namespace Bracket

/-- Classes of ASCII characters that have a name. -/
def asciiRanges? : String → Option (List (Char × Char))
  | "alnum" => some [('0', '9'), ('A', 'Z'), ('a', 'z')]
  | "alpha" => some [('A', 'Z'), ('a', 'z')]
  | "ascii" => some [('\x00', '\x7f')]
  | "blank" => some [('\t', '\t'), (' ', ' ')]
  | "cntrl" => some [('\x00', '\x1f'), ('\x7f', '\x7f')]
  | "digit" => some [('0', '9')]
  | "graph" => some [('!', '~')]
  | "lower" => some [('a', 'z')]
  | "print" => some [(' ', '~')]
  | "punct" => some [('!', '/'), (':', '@'), ('[', '\x60'), ('\x7b', '~')]
  | "space" => some [('\t', '\r'), (' ', ' ')]
  | "upper" => some [('A', 'Z')]
  | "word" => some [('0', '9'), ('A', 'Z'), ('_', '_'), ('a', 'z')]
  | "xdigit" => some [('0', '9'), ('A', 'F'), ('a', 'f')]
  | _ => none

/-- A named class of ASCII characters; the text begins behind the opening bracket. -/
private def readAscii? : List Char → Option (ClassItem × List Char)
  | ':' :: rest =>
    let (negated, rest) := match rest with
      | '^' :: rest => (true, rest)
      | _ => (false, rest)
    match asciiRanges? (String.ofList (rest.takeWhile (· ≠ ':'))), rest.dropWhile (· ≠ ':') with
    | some ranges, ':' :: ']' :: rest =>
      let cls := CharClass.ofRanges (ranges.map fun (first, last) ↦ (first.toNat, last.toNat))
      some ((ClassItem.plain cls).closed negated, rest)
    | _, _ => none
  | _ => none

/-- How two operands of a class combine. -/
inductive Operation
  | intersection
  | difference
  | symmetricDifference
deriving DecidableEq, Inhabited

namespace Operation

/-- What an operation makes of two sets of characters. -/
def combine : Operation → CharClass → CharClass → CharClass
  | intersection => .inter
  | difference => .difference
  | symmetricDifference => .symmetricDifference

def apply (op : Operation) (a b : ClassItem) : ClassItem where
  caseful := op.combine a.caseful b.caseful
  caseless := op.combine a.caseless.caseless b.caseless.caseless
  height := max a.height b.height + 1

end Operation

end Bracket

/-- A bracket that is still open. -/
structure Bracket where
  negated : Bool
  /-- The operand in front of the last operation, and the operation. -/
  pending : Option (ClassItem × Bracket.Operation) := none
  /-- The items since the last operation, the latest first. -/
  items : List ClassItem := []
deriving DecidableEq, Inhabited

namespace Bracket

private def add (b : Bracket) (i : ClassItem) : Bracket := { b with items := i :: b.items }

private def addChar (b : Bracket) (c : Char) : Bracket := b.add (.plain (.single c))

private def operand (b : Bracket) : ClassItem :=
  match b.pending with
  | some (left, op) => op.apply left (.ofItems b.items)
  | none => .ofItems b.items

private def operate (b : Bracket) (op : Operation) : Bracket :=
  { b with pending := some (b.operand, op), items := [] }

private def close (b : Bracket) : ClassItem :=
  let i := b.operand.closed b.negated
  { i with height := i.height + 1 }

/-- Read behind an opening bracket: a caret complements the class, hyphens at the beginning stand
for themselves, and so does a closing bracket in first place. -/
private def readOpening (rest : List Char) : Except Refusal (Bracket × List Char) := do
  let (negated, rest) := match rest with
    | '^' :: rest => (true, rest)
    | _ => (false, rest)
  let hyphens := rest.takeWhile (· = '-')
  let rest := rest.dropWhile (· = '-')
  let opened : Bracket := hyphens.foldl addChar { negated }
  match rest with
  | [] => .error .unclosedClass
  | ']' :: rest' =>
    if !hyphens.isEmpty then return (opened, rest)
    else if rest'.isEmpty then .error .unclosedClass
    else return (opened.addChar ']', rest')
  | _ => return (opened, rest)

/-- Read one item of a class: a character, an escape, or a range. -/
private def readItem : List Char → Except Refusal (ClassItem × List Char)
  | [] => .error .unclosedClass
  | cs => do
    let (first, rest) ← readEnd cs
    match rest with
    | [] => .error .unclosedClass
    | '-' :: ']' :: _ | '-' :: '-' :: _ => return (asClass first, rest)
    | '-' :: rest =>
      if rest.isEmpty then .error .unclosedClass
      else do
        let (last, rest) ← readEnd rest
        match first, last with
        | .inl a, .inl b =>
          if a ≤ b then return (.plain (.range a b), rest) else .error .reversedRange
        | _, _ => .error .malformedClass
    | rest => return (asClass first, rest)
where
  /-- A character or a class: what a range may or may not end with. -/
  readEnd : List Char → Except Refusal ((Char ⊕ CharClass) × List Char)
    | [] => .error .unclosedClass
    | '\\' :: rest => do
      match ← Escape.read rest with
      | (.literal c, rest) => return (.inl c, rest)
      | (.cls members, rest) => return (.inr members, rest)
      | (.assertion _, _) => .error .malformedClass
    | c :: rest => .ok (.inl c, rest)
  asClass : Char ⊕ CharClass → ClassItem
    | .inl c => .plain (.single c)
    | .inr members => .plain members

/-- Read the inside of a bracket, the innermost of the given open ones; `bound` is at least the
number of characters left. -/
private def readWithin : (bound : Nat) → Bracket → List Bracket → List Char →
    Except Refusal (ClassItem × List Char)
  | 0, _, _, _ => .error .unclosedClass
  | bound + 1, inner, outer, cs =>
    match cs with
    | [] => .error .unclosedClass
    | ']' :: rest =>
      match outer with
      | [] => .ok (inner.close, rest)
      | b :: outer => readWithin bound (b.add inner.close) outer rest
    | '[' :: rest =>
      match readAscii? rest with
      | some (i, rest) => readWithin bound (inner.add i) outer rest
      | none => do
        let (opened, rest) ← readOpening rest
        readWithin bound opened (inner :: outer) rest
    | '&' :: '&' :: rest => readWithin bound (inner.operate .intersection) outer rest
    | '-' :: '-' :: rest => readWithin bound (inner.operate .difference) outer rest
    | '~' :: '~' :: rest => readWithin bound (inner.operate .symmetricDifference) outer rest
    | cs => do
      let (i, rest) ← readItem cs
      readWithin bound (inner.add i) outer rest

/-- Read a class; the text begins behind its opening bracket. -/
def read (rest : List Char) : Except Refusal (ClassItem × List Char) := do
  let (opened, rest) ← readOpening rest
  readWithin (rest.length + 1) opened [] rest

end Bracket

end ModuleLinker.Pattern
