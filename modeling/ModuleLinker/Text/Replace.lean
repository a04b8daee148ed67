/-!
# Replacing parts of a text

Occurrences of a pattern are replaced from left to right and do not overlap: the text behind an
occurrence is searched afresh, and what has been put in is not searched.
-/

namespace ModuleLinker.Text

/-- Whether a pattern occurs in a text. -/
def occursIn (pattern : List Char) : List Char → Bool
  | [] => pattern.isEmpty
  | c :: rest => pattern.isPrefixOf (c :: rest) || occursIn pattern rest

/-- Replace the occurrences of a pattern in a text whose first `skip` characters belong to an
occurrence that has been replaced already. -/
def replaceFrom (pattern replacement : List Char) : (skip : Nat) → List Char → List Char
  | _, [] => []
  | skip + 1, _ :: rest => replaceFrom pattern replacement skip rest
  | 0, c :: rest =>
    if pattern.isPrefixOf (c :: rest) then
      replacement ++ replaceFrom pattern replacement (pattern.length - 1) rest
    else c :: replaceFrom pattern replacement 0 rest

/-- A text with all occurrences of a pattern replaced, or nothing when there is none. -/
def replace? (pattern replacement s : String) : Option String :=
  if occursIn pattern.toList s.toList then
    some (String.ofList (replaceFrom pattern.toList replacement.toList 0 s.toList))
  else none

theorem replaceFrom_of_not_occursIn {pattern s : List Char} (h : occursIn pattern s = false)
    (replacement : List Char) : replaceFrom pattern replacement 0 s = s := by
  induction s with
  | nil => rfl
  | cons c rest ih =>
    simp only [occursIn, Bool.or_eq_false_iff] at h
    simp [replaceFrom, h.1, ih h.2]

end ModuleLinker.Text
