import ModuleLinker.Pattern.Basic

/-!
# Searching with patterns

A pattern becomes a machine whose states either read one character, test a position, or lead on to
two other states. The machine is run on all possible matches at once: at each position of the text
it is in a set of states, and a state is entered at most once at a position. So a search takes no
more steps than the machine has states for each character of the text, whatever the pattern.
-/

namespace ModuleLinker.Pattern

/-- What a machine does next; states are named by their place. -/
inductive MachineState
  /-- A match is found. -/
  | accept
  | literal (c : Char) (next : Nat)
  | char (cls : CharClass) (next : Nat)
  | assertion (a : Assertion) (next : Nat)
  | branch (left right : Nat)
deriving DecidableEq, Inhabited

/-- A machine that searches for matches. -/
structure Machine where
  states : Array MachineState
  start : Nat
deriving DecidableEq, Inhabited

namespace Machine

/-! ## Construction

A part of a machine is built in front of what follows it: given the state that follows, it adds its
own states and gives the first one. -/

/-- The states of a machine that is being built, with the state that is entered first. -/
private structure Partial where
  states : Array MachineState
  first : Nat

namespace Partial

private def push : Partial → MachineState → Partial
  | ⟨states, _⟩, state =>
    let first := states.size
    { states := states.push state, first }

/-- Build the same part several times. -/
private def times (build : Partial → Partial) : Nat → Partial → Partial
  | 0, m => m
  | n + 1, m => times build n (build m)

/-- Build a part that may be left out, several times, one inside the other; what follows all of them
is given. -/
private def optional (build : Partial → Partial) (following : Nat) : Nat → Partial → Partial
  | 0, m => m
  | n + 1, m =>
    let ⟨states, first⟩ := build m
    optional build following n (push { states, first } (.branch first following))

/-- Build a part that may be taken again and again, once at least unless it may be left out. -/
private def loop (build : Partial → Partial) (mayBeLeftOut : Bool) (m : Partial) : Partial :=
  let following := m.first
  let m := m.push (.branch following following)
  let back := m.first
  let ⟨states, first⟩ := build m
  { states := states.setIfInBounds back (.branch first following)
    first := if mayBeLeftOut then back else first }

end Partial

/-- Build a pattern in front of what follows it. -/
private def build : Pattern → Partial → Partial
  | .empty, m => m
  | .literal text, m => text.foldr (fun c m ↦ m.push (.literal c m.first)) m
  | .char cls, m => m.push (.char cls m.first)
  | .assertion a, m => m.push (.assertion a m.first)
  | .group _ p, m => build p m
  | .repetition p least none, m =>
    Partial.times (build p) (least - 1) (Partial.loop (build p) (least = 0) m)
  | .repetition p least (some most), m =>
    Partial.times (build p) least (Partial.optional (build p) m.first (most - least) m)
  | .sequence p q, m => build p (build q m)
  | .choice p q, m =>
    let following := m.first
    let ⟨states, left⟩ := build p m
    let m := build q { states, first := following }
    m.push (.branch left m.first)

/-- The machine of a pattern. -/
def ofPattern (p : Pattern) : Machine :=
  let m := build p { states := #[.accept], first := 0 }
  { states := m.states, start := m.first }

/-! ## Running -/

/-- Enter some states at a position, and all those that they lead to, unless a match is found. The
answer is the states that read a character, with the last position at which each state was entered.
Positions count from one. A state leads to two others at most, so that many steps for each state are
enough. -/
private def enter (m : Machine) (i : Nat) (before after : Option Char) :
    (bound : Nat) → (waiting reading : List Nat) → (entered : Array Nat) →
      Option (List Nat × Array Nat)
  | _, [], reading, entered | 0, _ :: _, reading, entered => some (reading, entered)
  | bound + 1, s :: waiting, reading, entered =>
    if entered.getD s i = i then enter m i before after bound waiting reading entered
    else
      let entered := entered.setIfInBounds s i
      match m.states.getD s .accept with
      | .accept => none
      | .literal .. | .char .. => enter m i before after bound waiting (s :: reading) entered
      | .assertion a next =>
        let waiting := if a.holds before after then next :: waiting else waiting
        enter m i before after bound waiting reading entered
      | .branch left right =>
        enter m i before after bound (left :: right :: waiting) reading entered

/-- The state behind one that reads a given character. -/
private def next? (m : Machine) (c : Char) (s : Nat) : Option Nat :=
  match m.states.getD s .accept with
  | .literal d next => if c = d then some next else none
  | .char cls next => if cls.contains c then some next else none
  | _ => none

/-- Go through the rest of a text, in given states at the first character. A match may begin
anywhere. -/
private def runFrom (m : Machine) (i : Nat) (entered : Array Nat) (before : Option Char)
    (states : List Nat) (rest : List Char) : Bool :=
  let bound := 2 * m.states.size + states.length + 1
  match enter m i before rest.head? bound (states ++ [m.start]) [] entered with
  | none => true
  | some (reading, entered) =>
    match rest with
    | [] => false
    | c :: rest => runFrom m (i + 1) entered (some c) (reading.filterMap (m.next? c)) rest

/-- Whether a text contains a match. -/
def finds (m : Machine) (text : String) : Bool :=
  m.runFrom 1 (Array.replicate m.states.size 0) none [] text.toList

end Machine

/-- Whether a text contains a match. -/
def isMatch (p : Pattern) (text : String) : Bool := (Machine.ofPattern p).finds text

end ModuleLinker.Pattern
