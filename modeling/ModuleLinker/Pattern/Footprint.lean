import ModuleLinker.Digest.Fnv
import ModuleLinker.Pattern.Basic
import ModuleLinker.Text.Utf8
import Std.Data.HashMap

/-!
# The size of patterns

A pattern that is short to write may be long to search with. Its size is that of the byte machine
that recognizes it: the machine reads UTF-8, its repetitions are written out, and its classes are
spelled as byte ranges that share states where they can. A pattern is accepted if ten mebibytes hold
its machine in each direction: forward, with marks around the groups, and backward. The machines of
several patterns together, without marks, have the same limit.

The machine itself is not built. Its states are counted, in the order in which they would be made,
and so is their memory.
-/

namespace ModuleLinker.Pattern

/-- How much of a machine has been measured. -/
structure Footprint where
  /-- The number of states, which is also the name of the next one. -/
  states : Nat := 0
  /-- The memory of the states, in bytes. -/
  memory : Nat := 0
  /-- Whether the part measured last ends in a state that branches. Such a state takes in the way on
  as one more branch. -/
  endsInBranches : Bool := false
deriving DecidableEq, Inhabited

/-- What kind of machine is measured. -/
structure MachineKind where
  backward : Bool
  /-- Whether the beginning and the end of each group are marked. -/
  marksGroups : Bool
deriving DecidableEq, Inhabited

namespace Footprint

/-- The memory that a machine may need, in bytes. -/
def limit : Nat := 10 * 1024 * 1024

/-- The memory of a state, apart from lists of branches and byte ranges. -/
private def stateSize : Nat := 32

/-- The memory of a branch of a state. -/
private def branchSize : Nat := 4

/-- The memory of a byte range in a state that tells several ranges apart. -/
private def rangeSize : Nat := 8

/-- A part of a machine adds to what has been measured, unless the machine becomes too large. -/
private abbrev Part := Footprint → Option Footprint

/-- Some states, with what their lists take. -/
private def grow (states lists : Nat) : Part := fun f ↦
  let memory := f.memory + states * stateSize + lists
  if limit < memory then none else some { states := f.states + states, memory }

/-- One state, with what its list takes. -/
private def state (list : Nat) : Part := grow 1 list

/-- The way on from the end of the last part. -/
private def link : Part := fun f ↦ if f.endsInBranches then grow 0 branchSize f else some f

/-- The last state is the end, and branches. -/
private def endInBranches : Part := fun f ↦ some { f with endsInBranches := true }

/-- Parts that are made one after the other. -/
private def inTurn (parts : List Part) : Part := fun f ↦ parts.foldlM (fun f part ↦ part f) f

/-- The same part made a number of times. -/
private def times (part : Part) : Nat → Part
  | 0, f => some f
  | n + 1, f =>
    match part f with
    | some f => times part n f
    | none => none

/-! ## Repetitions and choices -/

/-- A part a fixed number of times. -/
private def exactly (part : Part) : Nat → Part
  | 0 => state 0
  | n + 1 => inTurn [times (inTurn [part, link]) n, part]

/-- A part any number of times. Around a part that may match nothing, leaving it out and going back
to it take a state each. -/
private def anyNumber (part : Part) (matchesNothing : Bool) : Part :=
  if matchesNothing then
    inTurn [part, link, state (2 * branchSize), state (2 * branchSize), state 0]
  else inTurn [state branchSize, part, link, endInBranches]

/-- A part a number of times at least. -/
private def atLeast (part : Part) (matchesNothing : Bool) (least : Nat) : Part :=
  let last := [part, link, state branchSize, endInBranches]
  match least with
  | 0 => anyNumber part matchesNothing
  | 1 => inTurn last
  | n + 1 => inTurn ([exactly part n, link] ++ last)

/-- A part a number of times, and then a number of further times at most. -/
private def between (part : Part) (least further : Nat) : Part :=
  inTurn [exactly part least, link, state 0,
    times (inTurn [state (2 * branchSize), part, link]) further]

private def repetition (part : Part) (matchesNothing : Bool) (least : Nat) : Option Nat → Part
  | none => atLeast part matchesNothing least
  | some most =>
    if least = most then exactly part least
    else if most = 1 then inTurn [state (2 * branchSize), part, link, state 0]
    else between part least (most - least)

/-- Alternatives. The states before and behind all of them are made third. -/
private def choice : List Part → Part
  | [part] => part
  | parts =>
    let alternatives := parts.map fun part ↦ inTurn [part, link, grow 0 branchSize]
    inTurn (alternatives.take 2 ++ [grow 2 0] ++ alternatives.drop 2)

/-! ## Choices among literals

Literals are told apart byte by byte, in a tree. At a place where a literal ends, the literals that
come later are told apart anew, for those that came first are preferred. -/

/-- Cut words at the places where an empty word stands, unless nothing but empty words came
before. -/
private def cutAtEmpty (words : List (List Nat)) : List (List (List Nat)) :=
  let (cut, current) := words.foldl
    (fun (cut, current) word ↦
      if !word.isEmpty then (cut, word :: current)
      else if current.isEmpty && !cut.isEmpty && cut.all List.isEmpty then (cut, current)
      else (current :: cut, []))
    (([], []) : List (List (List Nat)) × List (List Nat))
  ((current :: cut).map List.reverse).reverse

/-- A tree of words, which is at most `bound` levels high. -/
private def tree : (bound : Nat) → (words : List (List Nat)) → Part
  | 0, _ => some
  | bound + 1, words =>
    let cut := cutAtEmpty words
    let chunks := cut.filter (!·.isEmpty)
    let branches := chunks.length + (cut.length - 1)
    inTurn (state (branches * branchSize) :: chunks.map fun chunk ↦
      let heads := (chunk.filterMap List.head?).eraseDups
      let tails := heads.map fun head ↦
        (chunk.filter (·.head? = some head)).map List.tail
      let ranges := if heads.length = 1 then 0 else heads.length
      inTurn (state (ranges * rangeSize) ::
        (tails.filter fun tails ↦ !tails.all List.isEmpty).map (tree bound)))

/-- A choice among words, given by their bytes. -/
private def wordChoice (words : List (List Nat)) : Part :=
  inTurn [state 0, tree ((words.map List.length).foldl max 0 + 1) words]

/-! ## Classes

Read forward, the sequences of byte ranges that spell a class come in ascending order. The states
for the sequence read last are still open; where the next one turns away, they are finished from the
end. A finished state that was made before is used again, if it is still in its slot of a table.
Read backward, each sequence is a row of states of its own, except for what it shares at the end of
the class. -/

/-- A byte range with the state behind it. -/
private structure ByteStep where
  first : Nat
  last : Nat
  next : Nat
deriving DecidableEq

/-- The states of a class that have been made, by what they read. -/
private structure KnownStates (α : Type) where
  footprint : Footprint
  /-- For slots in use, what the state there reads, and its name. -/
  table : Std.HashMap UInt64 (α × Nat) := ∅

/-- Find a state by its slot and what it reads, or make it. -/
private def KnownStates.get {α : Type} [DecidableEq α] (slot : UInt64) (reads : α) (list : Nat) :
    KnownStates α → Option (Nat × KnownStates α)
  | ⟨footprint, table⟩ =>
    match table[slot]?.bind fun (reads', name) ↦ if reads' = reads then some name else none with
    | some name => some (name, ⟨footprint, table⟩)
    | none =>
      let name := footprint.states
      (state list footprint).map fun footprint ↦
        (name, ⟨footprint, table.insert slot (reads, name)⟩)

/-- A state that is still open: the finished steps, the latest first, and the range of the last
step, whose next state is not known yet. -/
private structure OpenState where
  steps : List ByteStep := []
  last : Option (Nat × Nat) := none

private def OpenState.finish (o : OpenState) (next : Nat) : List ByteStep :=
  match o.last with
  | some (first, last) => { first, last, next } :: o.steps
  | none => o.steps

/-- Finish states that follow each other; the result is the first of them, or the target. -/
private def finishAll (target : Nat) : List OpenState → KnownStates (List ByteStep) →
    Option (Nat × KnownStates (List ByteStep))
  | [], known => some (target, known)
  | o :: deeper, known => do
    let (next, known) ← finishAll target deeper known
    let steps := (o.finish next).reverse
    let hash := steps.foldl
      (fun hash s ↦ Digest.fnv1a [.ofNat s.first, .ofNat s.last, .ofNat s.next] hash)
      Digest.fnvBasis
    known.get (hash % 10000) steps (steps.length * rangeSize)

/-- Take in a sequence: keep the states up to the one where it turns away, and finish those behind
it. -/
private def addSequence (target : Nat) : List OpenState → List (Nat × Nat) →
    KnownStates (List ByteStep) → Option (List OpenState × KnownStates (List ByteStep))
  | o :: deeper, range :: ranges, known =>
    if o.last = some range then do
      let (deeper, known) ← addSequence target deeper ranges known
      return (o :: deeper, known)
    else do
      let (next, known) ← finishAll target deeper known
      let further := ranges.map fun range ↦ ({ last := some range } : OpenState)
      return ({ steps := o.finish next, last := some range } :: further, known)
  | states, _, known => some (states, known)

private def classForward (sequences : List (List (Nat × Nat))) : Part := fun f ↦ do
  let target := f.states
  let (states, known) ← sequences.foldlM
    (fun (states, known) sequence ↦ addSequence target states sequence known)
    ([({} : OpenState)], ({ footprint := ← state 0 f } : KnownStates (List ByteStep)))
  return (← finishAll target states known).2.footprint

private def classBackward (sequences : List (List (Nat × Nat))) : Part := fun f ↦ do
  let target := f.states + 1
  let known ← sequences.foldlM
    (fun known sequence ↦ do
      let (_, known) ← sequence.foldlM
        (fun (next, known) (first, last) ↦
          let hash := Digest.fnv1a [.ofNat next, .ofNat first, .ofNat last]
          known.get (hash % 1000) ({ first, last, next } : ByteStep) 0)
        (target, known)
      return { known with footprint := ← grow 0 branchSize known.footprint })
    ({ footprint := ← grow 2 0 f } : KnownStates ByteStep)
  return known.footprint

/-- The parts for a class, of which there is one. ASCII characters need no more than one byte. -/
private def oneOfClass (kind : MachineKind) (cls : CharClass) : List Part :=
  let ranges := cls.ranges.toList
  if ranges.all fun r ↦ r.2 ≤ 0x7f then [inTurn [state 0, state (ranges.length * rangeSize)]]
  else
    let sequences := ranges.flatMap fun (first, last) ↦ Text.utf8Sequences first last
    [if kind.backward then classBackward sequences else classForward sequences]

/-! ## Patterns -/

/-- The words of a choice that is among literals only. -/
private def literals? (kind : MachineKind) (p : Pattern) : Option (List (List Nat)) :=
  if p.alternatives.length = 1 then none
  else p.alternatives.mapM fun
    | .literal text =>
      let bytes := text.flatMap Text.utf8Bytes
      some (if kind.backward then bytes.reverse else bytes)
    | _ => none

/-- A pattern, given the parts for its alternatives. -/
private def together (kind : MachineKind) (p : Pattern) (alternatives : List Part) : Part :=
  match literals? kind p with
  | some words => wordChoice words
  | none => choice alternatives

/-- The parts for the alternatives of a pattern. -/
private def alternatives (kind : MachineKind) : Pattern → List Part
  | .empty | .assertion _ => [state 0]
  | .literal text => [grow (text.flatMap Text.utf8Bytes).length 0]
  | .char cls => oneOfClass kind cls
  | .group _ p =>
    let part := together kind p (alternatives kind p)
    [if kind.marksGroups then inTurn [state 0, part, link, state 0] else part]
  | .repetition p least most =>
    [repetition (together kind p (alternatives kind p)) (p.leastLength?.all (· = 0)) least most]
  | .sequence p q =>
    let first := together kind p (alternatives kind p)
    let rest := together kind q (alternatives kind q)
    [inTurn (if kind.backward then [rest, link, first] else [first, link, rest])]
  | .choice p q => alternatives kind p ++ alternatives kind q

/-- The machine that searches for some patterns. Where a match may begin anywhere, a state that
reads any byte goes round in front. -/
private def search (kind : MachineKind) (ps : List Pattern) : Part :=
  let opening : Part :=
    if ps.all (if kind.backward then onlyAtEnd else onlyAtStart) then state 0
    else grow 3 (2 * branchSize + rangeSize)
  let marked (p : Pattern) : Pattern := if kind.marksGroups then .group 0 p else p
  let parts := ps.map fun p ↦
    inTurn [together kind (marked p) (alternatives kind (marked p)), link, state 0]
  inTurn [opening, choice parts]

/-- The size of the machine for some patterns, if it keeps to the limit. -/
def ofPatterns? (kind : MachineKind) (ps : List Pattern) : Option Footprint := search kind ps {}

end Footprint

/-- Whether a pattern is small enough. -/
def fits (p : Pattern) : Bool :=
  (Footprint.ofPatterns? { backward := false, marksGroups := true } [p]).isSome
    && (Footprint.ofPatterns? { backward := true, marksGroups := false } [p]).isSome

/-- Whether several patterns are small enough together. -/
def fitTogether (ps : List Pattern) : Bool :=
  (Footprint.ofPatterns? { backward := false, marksGroups := false } ps).isSome
    && (Footprint.ofPatterns? { backward := true, marksGroups := false } ps).isSome

end ModuleLinker.Pattern
