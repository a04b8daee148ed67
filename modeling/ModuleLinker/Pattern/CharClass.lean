import ModuleLinker.Text.Blank
import ModuleLinker.Text.CaseFolding
import ModuleLinker.Text.Digits
import ModuleLinker.Text.WordChars

/-!
# Character classes

What one character of a text is tested against: a set of characters, kept as ranges of code points
in ascending order, with a gap between any two. A set has one such form, so that equal sets are
equal values, and membership is a binary search.

Ignoring case is an operation on classes: a class without case holds every character that differs in
case only from one of its members. It has to come before complement, so that a complement keeps out
both cases.
-/

namespace ModuleLinker

/-- A set of characters, as ranges of code points with both ends included. -/
structure CharClass where
  ranges : Array (Nat × Nat)
deriving DecidableEq, Inhabited

namespace CharClass

/-! ## Ranges in ascending order -/

/-- Code points that are no characters. -/
private def surrogates : Nat × Nat := (0xd800, 0xdfff)

/-- The characters of a range. -/
private def scalarParts : Nat × Nat → List (Nat × Nat)
  | (first, last) =>
    [(first, min last (surrogates.1 - 1)), (max first (surrogates.2 + 1), last)].filter
      fun (first, last) ↦ first ≤ last

/-- Add a range behind ranges that begin no later; ranges that touch become one. -/
private def extend (ranges : Array (Nat × Nat)) : Nat × Nat → Array (Nat × Nat)
  | (first, last) =>
    match ranges.back? with
    | some (first', last') =>
      if first ≤ last' + 1 then ranges.pop.push (first', max last last')
      else ranges.push (first, last)
    | none => #[(first, last)]

private def normalize (ranges : List (Nat × Nat)) : Array (Nat × Nat) :=
  (ranges.mergeSort fun r r' ↦ r.1 ≤ r'.1).foldl extend #[]

/-- The class of the characters in some ranges of code points. -/
def ofRanges (ranges : List (Nat × Nat)) : CharClass := ⟨normalize (ranges.flatMap scalarParts)⟩

/-! ## Membership -/

/-- Whether a code point lies in one of the ranges from the place `lo` up to the place `hi`. -/
private def containsBetween (ranges : Array (Nat × Nat)) (n lo hi : Nat) : Bool :=
  if lo < hi then
    let middle := (lo + hi) / 2
    match ranges[middle]? with
    | some (first, last) =>
      if n < first then containsBetween ranges n lo middle
      else if last < n then containsBetween ranges n (middle + 1) hi
      else true
    | none => false
  else false
termination_by hi - lo

/-- Whether a code point belongs to a class. -/
def containsCodePoint (a : CharClass) (n : Nat) : Bool :=
  containsBetween a.ranges n 0 a.ranges.size

/-- Whether a character belongs to a class. -/
def contains (a : CharClass) (c : Char) : Bool := a.containsCodePoint c.toNat

/-! ## Operations -/

def empty : CharClass := ⟨#[]⟩

/-- Every character. -/
def any : CharClass := ofRanges [(0, 0x10ffff)]

/-- The characters from the first to the last. -/
def range (first last : Char) : CharClass := ofRanges [(first.toNat, last.toNat)]

/-- The class of one character. -/
def single (c : Char) : CharClass := range c c

def digit : CharClass := ofRanges Text.digitRanges

def blank : CharClass := ofRanges Text.blankRanges

def word : CharClass := ofRanges Text.wordRanges

/-- The characters that belong to one class at least. -/
def unions (classes : List CharClass) : CharClass :=
  match classes with
  | [a] => a
  | _ => ⟨normalize (classes.flatMap (·.ranges.toList))⟩

def union (a b : CharClass) : CharClass := unions [a, b]

/-- The characters that do not belong to a class: the gaps between its ranges and the code points
that are no characters. -/
def complement (a : CharClass) : CharClass :=
  let (next, gaps) := (normalize (surrogates :: a.ranges.toList)).foldl
    (fun (next, gaps) (first, last) ↦
      (last + 1, if next < first then gaps.push (next, first - 1) else gaps))
    (0, #[])
  ⟨if next ≤ 0x10ffff then gaps.push (next, 0x10ffff) else gaps⟩

def inter (a b : CharClass) : CharClass := (a.complement.union b.complement).complement

/-- The members of the first class that are not members of the second. -/
def difference (a b : CharClass) : CharClass := a.inter b.complement

/-- The members of exactly one of two classes. -/
def symmetricDifference (a b : CharClass) : CharClass := (a.difference b).union (b.difference a)

/-- Every character that differs from a member in case only: first the least character of each
member's class of cases, then all the characters of those classes. -/
def caseless (a : CharClass) : CharClass :=
  let withLeast := a.union (ofRanges (Text.caseVariants.filterMap fun (n, least) ↦
    if a.containsCodePoint n then some (least, least) else none))
  withLeast.union (ofRanges (Text.caseVariants.filterMap fun (n, least) ↦
    if withLeast.containsCodePoint least then some (n, n) else none))

/-- Every character that differs from one character in case only. -/
def casesOf (c : Char) : CharClass :=
  ofRanges ((Text.caseClass c).map fun d ↦ (d.toNat, d.toNat))

/-- The only member of a class. -/
def onlyMember? (a : CharClass) : Option Char :=
  match a.ranges.toList with
  | [(first, last)] => if first = last then some (Char.ofNat first) else none
  | _ => none

end CharClass

end ModuleLinker
