import ModuleLinker.Pattern.Token

/-!
# Reading patterns

Tokens are put together from left to right. The groups that are still open form a stack, the
outermost first opened; each holds the alternatives that are finished, and the items of the one that
is being read, the latest first. Flags that a group sets are in force to the end of the group,
across its alternatives.

How deep a written pattern is nested is limited. Groups, repetitions, rows of items and rows of
alternatives count, each as one level around what they hold.
-/

namespace ModuleLinker.Pattern

/-- The flags in force. -/
structure Flags where
  ignoreCase : Bool := true
  multiLine : Bool := false
  dotMatchesNewline : Bool := false
deriving DecidableEq, Inhabited

namespace Flags

/-- Change one flag. -/
def set (flags : Flags) : Flag × Bool → Flags
  | (.ignoreCase, on) => { flags with ignoreCase := on }
  | (.multiLine, on) => { flags with multiLine := on }
  | (.dotMatchesNewline, on) => { flags with dotMatchesNewline := on }
  | (.lazy, _) | (.allScripts, _) => flags

def setAll (flags : Flags) (changes : FlagChanges) : Flags := changes.foldl set flags

end Flags

/-- A part of a written pattern. -/
structure Piece where
  pattern : Pattern
  /-- How deep the part is nested. -/
  height : Nat := 0
  /-- Whether the part may be repeated, as a change of flags may not. -/
  repeatable : Bool := true
deriving DecidableEq, Inhabited

namespace Piece

/-- Several parts are one level higher than the highest of them. -/
private def combine (make : List Pattern → Pattern) : List Piece → Piece
  | [p] => p
  | ps => {
    pattern := make (ps.map pattern)
    height := if ps.isEmpty then 0 else (ps.map height).foldl max 0 + 1 }

/-- Parts that follow each other, the latest first. -/
def inSequence (latestFirst : List Piece) : Piece :=
  combine Pattern.inSequence latestFirst.reverse

/-- Alternatives, the latest first. -/
def oneOf (latestFirst : List Piece) : Piece := combine Pattern.oneOf latestFirst.reverse

end Piece

/-- A group that is still open, or the whole pattern. -/
structure OpenGroup where
  /-- Finished alternatives, the latest first. -/
  alternatives : List Piece := []
  /-- Items of the current alternative, the latest first. -/
  items : List Piece := []
  /-- The number of the group, if it has one. -/
  number : Option Nat := none
  /-- The flags in force outside the group. -/
  flagsOutside : Flags := {}
deriving DecidableEq, Inhabited

namespace OpenGroup

def push (g : OpenGroup) (p : Piece) : OpenGroup := { g with items := p :: g.items }

/-- Begin the next alternative. -/
def nextAlternative (g : OpenGroup) : OpenGroup :=
  { g with alternatives := .inSequence g.items :: g.alternatives, items := [] }

/-- Everything that was read. -/
def inside (g : OpenGroup) : Piece := .oneOf (.inSequence g.items :: g.alternatives)

/-- The group as a part of what is around it. -/
def close (g : OpenGroup) : Piece :=
  let p := g.inside
  { pattern := g.number.elim p.pattern (.group · p.pattern), height := p.height + 1 }

/-- Repeat the latest item. -/
def repeatLatest (g : OpenGroup) (least : Nat) (most : Option Nat) : Except Refusal OpenGroup :=
  match g.items with
  | p :: earlier =>
    if p.repeatable then
      let p := { pattern := p.pattern.repeated least most, height := p.height + 1 }
      .ok { g with items := p :: earlier }
    else .error .nothingToRepeat
  | [] => .error .nothingToRepeat

end OpenGroup

/-- What was read so far. -/
structure Parsing where
  flags : Flags := {}
  inner : OpenGroup := {}
  /-- The groups around the inner one, the innermost first. -/
  outer : List OpenGroup := []
  groupNames : List String := []
  /-- The number of the next group that has one. -/
  nextNumber : Nat := 1
deriving DecidableEq, Inhabited

namespace Parsing

private def push (s : Parsing) (p : Pattern) (height : Nat := 0) : Parsing :=
  { s with inner := s.inner.push { pattern := p, height } }

/-- Open a group with a number or without. -/
private def openGroup (s : Parsing) (number : Option Nat) : Parsing :=
  { s with inner := { number, flagsOutside := s.flags }, outer := s.inner :: s.outer }

/-- Take in one token. -/
def step (s : Parsing) : Token → Except Refusal Parsing
  | .literal c => .ok (s.push (.ofChar s.flags.ignoreCase c))
  | .cls i => .ok (s.push (.ofClass (i.members s.flags.ignoreCase)) i.height)
  | .dot => .ok (s.push (.ofClass
      (if s.flags.dotMatchesNewline then .any else (CharClass.single '\n').complement)))
  | .lineStart => .ok (s.push (.assertion
      (if s.flags.multiLine then .lineStart else .textStart)))
  | .lineEnd => .ok (s.push (.assertion (if s.flags.multiLine then .lineEnd else .textEnd)))
  | .assertion a => .ok (s.push (.assertion a))
  | .openGroup name =>
    if name.any s.groupNames.contains then .error .duplicateGroupName
    else .ok { s.openGroup (some s.nextNumber) with
      groupNames := name.toList ++ s.groupNames
      nextNumber := s.nextNumber + 1 }
  | .openPlainGroup changes =>
    .ok { s.openGroup none with flags := s.flags.setAll changes }
  | .setFlags changes =>
    .ok { s with
      flags := s.flags.setAll changes
      inner := s.inner.push { pattern := .empty, repeatable := false } }
  | .closeGroup =>
    match s.outer with
    | [] => .error .unopenedGroup
    | g :: outer =>
      .ok { s with
        flags := s.inner.flagsOutside
        inner := g.push s.inner.close
        outer }
  | .bar => .ok { s with inner := s.inner.nextAlternative }
  | .repetition least most => do return { s with inner := ← s.inner.repeatLatest least most }

end Parsing

/-- How deep a written pattern may be nested. -/
def maxHeight : Nat := 250

/-- Read a written pattern. Case is ignored unless the pattern says otherwise. -/
def parse (written : String) : Except Refusal Pattern := do
  let s ← (← Token.ofChars written.toList).foldlM Parsing.step {}
  if !s.outer.isEmpty then .error .unclosedGroup
  let p := s.inner.inside
  if maxHeight < p.height then .error .nestedTooDeeply
  return p.pattern

end ModuleLinker.Pattern
