import ModuleLinker.Pattern.CharClass

/-!
# Patterns

A pattern says which stretches of a text match. Only whether there is a match is ever asked, so
preferences among matches play no part.

Patterns are put together by `ofClass`, `repeated`, `inSequence` and `oneOf`, which keep them in a
simple form: sequences and choices lean to the right, literals that follow each other are one
literal, a choice among characters is a class, and what all alternatives begin with stands in front
of the choice.
-/

namespace ModuleLinker

/-- A condition on a position of the text. -/
inductive Assertion
  | textStart
  | textEnd
  | lineStart
  | lineEnd
  | wordBoundary
  | notWordBoundary
  | wordStart
  | wordEnd
  /-- No word character in front. -/
  | notAfterWord
  /-- No word character behind. -/
  | notBeforeWord
deriving DecidableEq, Inhabited

/-- Whether a condition holds between two neighbours; a neighbour is absent at an end of the
text. -/
def Assertion.holds (before after : Option Char) : Assertion → Bool
  | textStart => before.isNone
  | textEnd => after.isNone
  | lineStart => before.isNone || before = some '\n'
  | lineEnd => after.isNone || after = some '\n'
  | wordBoundary => before.any Text.isWordChar != after.any Text.isWordChar
  | notWordBoundary => before.any Text.isWordChar == after.any Text.isWordChar
  | wordStart => !before.any Text.isWordChar && after.any Text.isWordChar
  | wordEnd => before.any Text.isWordChar && !after.any Text.isWordChar
  | notAfterWord => !before.any Text.isWordChar
  | notBeforeWord => !after.any Text.isWordChar

/-- What a text is searched for. -/
inductive Pattern
  | empty
  /-- A text of at least one character. -/
  | literal (text : List Char)
  | char (cls : CharClass)
  | assertion (a : Assertion)
  /-- A group whose match could be asked for by its number. -/
  | group (number : Nat) (p : Pattern)
  /-- At least `least` times, and at most `most` times when that is given. -/
  | repetition (p : Pattern) (least : Nat) (most : Option Nat)
  | sequence (first rest : Pattern)
  | choice (first other : Pattern)
deriving DecidableEq, Inhabited

namespace Pattern

/-! ## Lengths of matches and ends of the text -/

/-- Whether a match has no character, whatever the text. -/
def matchesNoChar : Pattern → Bool
  | empty | assertion _ => true
  | literal _ | char _ => false
  | group _ p => p.matchesNoChar
  | repetition p _ most => most.isSome && p.matchesNoChar
  | sequence p q | choice p q => p.matchesNoChar && q.matchesNoChar

/-- A number of characters that every match has at least; absent for a class without members and
what contains one. -/
def leastLength? : Pattern → Option Nat
  | empty | assertion _ => some 0
  | literal text => some text.length
  | char cls => if cls.ranges.isEmpty then none else some 1
  | group _ p => p.leastLength?
  | repetition p least _ => p.leastLength?.map (· * least)
  | sequence p q => do return (← p.leastLength?) + (← q.leastLength?)
  | choice p q => do return min (← p.leastLength?) (← q.leastLength?)

/-- Whether it is plain that matches begin at the start of the text only. -/
def onlyAtStart : Pattern → Bool
  | assertion a => a = .textStart
  | empty | literal _ | char _ => false
  | group _ p => p.onlyAtStart
  | repetition p least _ => least ≠ 0 && p.onlyAtStart
  | sequence p q => p.onlyAtStart || (p.matchesNoChar && q.onlyAtStart)
  | choice p q => p.onlyAtStart && q.onlyAtStart

/-- Whether it is plain that matches end at the end of the text only. -/
def onlyAtEnd : Pattern → Bool
  | assertion a => a = .textEnd
  | empty | literal _ | char _ => false
  | group _ p => p.onlyAtEnd
  | repetition p least _ => least ≠ 0 && p.onlyAtEnd
  | sequence p q => q.onlyAtEnd || (q.matchesNoChar && p.onlyAtEnd)
  | choice p q => p.onlyAtEnd && q.onlyAtEnd

/-! ## Putting patterns together -/

/-- One character of a class. -/
def ofClass (cls : CharClass) : Pattern :=
  match cls.onlyMember? with
  | some c => literal [c]
  | none => char cls

/-- One of the characters that differ from a character in case only, or the character alone. -/
def ofChar (ignoreCase : Bool) (c : Char) : Pattern :=
  if ignoreCase then ofClass (.casesOf c) else literal [c]

/-- A repeated pattern. A pattern that matches no character is repeated once at most, for a second
time would change nothing. -/
def repeated (p : Pattern) (least : Nat) (most : Option Nat) : Pattern :=
  let (least, most) :=
    if p.matchesNoChar then (min least 1, some (most.elim 1 (min · 1))) else (least, most)
  if most = some 0 then empty
  else if least = 1 && most = some 1 then p
  else repetition p least most

/-- What a sequence consists of. -/
def items : Pattern → List Pattern
  | empty => []
  | sequence p q => p.items ++ q.items
  | p => [p]

private def joinItems : List Pattern → Pattern
  | [] => empty
  | [p] => p
  | p :: rest => sequence p (joinItems rest)

/-- Put an item in front of a sequence. -/
private def consItem : Pattern → List Pattern → List Pattern
  | literal s, literal t :: rest => literal (s ++ t) :: rest
  | p, rest => p :: rest

/-- Patterns one after the other. -/
def inSequence (ps : List Pattern) : Pattern := joinItems ((ps.flatMap items).foldr consItem [])

/-- What is chosen from. -/
def alternatives : Pattern → List Pattern
  | choice p q => p.alternatives ++ q.alternatives
  | p => [p]

private def joinAlternatives : List Pattern → Pattern
  | [] => char .empty
  | [p] => p
  | p :: rest => choice p (joinAlternatives rest)

private def onlyChar? : Pattern → Option CharClass
  | literal [c] => some (.single c)
  | _ => none

private def class? : Pattern → Option CharClass
  | char cls => some cls
  | _ => none

/-- The items that all alternatives begin with, provided that each has two items or more. -/
private def sharedItems (rows : List (List Pattern)) : List Pattern :=
  match rows with
  | row :: rows =>
    if (row :: rows).all fun items ↦ 2 ≤ items.length then
      rows.foldl (fun shared items ↦
        ((shared.zip items).takeWhile fun (p, q) ↦ p = q).map Prod.fst) row
    else []
  | [] => []

/-- A choice; what the alternatives share is taken out at most `bound` times. -/
private def oneOfWithin (bound : Nat) (ps : List Pattern) : Pattern :=
  let ps := ps.flatMap alternatives
  if ps.length = 1 then joinAlternatives ps
  else match ps.mapM onlyChar?, ps.mapM class? with
  | some classes, _ | none, some classes => ofClass (.unions classes)
  | none, none =>
    let rows := ps.map items
    match bound, sharedItems rows with
    | bound + 1, shared@(_ :: _) =>
      inSequence (shared ++
        [oneOfWithin bound (rows.map fun items ↦ inSequence (items.drop shared.length))])
    | _, _ => joinAlternatives ps

/-- The number of parts. -/
def size : Pattern → Nat
  | empty | literal _ | char _ | assertion _ => 1
  | group _ p | repetition p _ _ => p.size + 1
  | sequence p q | choice p q => p.size + q.size + 1

/-- One of several patterns. Whatever is taken out of the alternatives is gone from each, so that
this happens no more often than there are parts. -/
def oneOf (ps : List Pattern) : Pattern := oneOfWithin (ps.foldl (fun n p ↦ n + p.size) 0) ps

end Pattern

end ModuleLinker
