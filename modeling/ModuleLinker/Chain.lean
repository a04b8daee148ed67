/-!
# Chains of links

Entries of a module's tables point at one another: a nested type at its declaring type, a nested
reference at its scope, a nested export at its declaring export. `next` gives the link of an entry,
if it has one.

Two ways of following links are needed. A chain that is known to end is followed to its end, within
a bound on the number of links. A chain that may loop is cut before its first repeated entry.
-/

namespace ModuleLinker.Chain

variable {α : Type}

/-- The entries from a start on, following at most `bound` links. -/
def follow (next : α → Option α) : (bound : Nat) → α → List α
  | 0, a => [a]
  | bound + 1, a =>
    match next a with
    | none => [a]
    | some b => a :: follow next bound b

/-- Whether following at most `bound` links from a start meets an entry without a link. -/
def endsWithin (next : α → Option α) : (bound : Nat) → α → Bool
  | bound, a =>
    match next a, bound with
    | none, _ => true
    | some _, 0 => false
    | some b, bound + 1 => endsWithin next bound b

/-- The entries from a start on, cut before the first one that repeats and followed for at most
`bound` links; `seen` holds the entries already passed. -/
def distinct [DecidableEq α] (next : α → Option α) : (bound : Nat) → (seen : List α) → α → List α
  | 0, _, a => [a]
  | bound + 1, seen, a =>
    match next a with
    | none => [a]
    | some b => if b = a ∨ b ∈ seen then [a] else a :: distinct next bound (a :: seen) b

theorem length_follow_le (next : α → Option α) (bound : Nat) (a : α) :
    (follow next bound a).length ≤ bound + 1 := by
  induction bound generalizing a with
  | zero => simp [follow]
  | succ n ih =>
    unfold follow
    split
    · simp
    · simpa using ih _

theorem follow_eq_cons (next : α → Option α) (n : Nat) (a : α) :
    ∃ rest, follow next n a = a :: rest := by
  cases n with
  | zero => exact ⟨[], rfl⟩
  | succ n =>
    unfold follow
    split
    · exact ⟨[], rfl⟩
    · exact ⟨_, rfl⟩

end ModuleLinker.Chain
