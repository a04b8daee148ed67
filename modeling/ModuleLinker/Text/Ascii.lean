/-!
# ASCII case

Module names are compared without regard to the case of the letters A to Z; other letters keep their
case.
-/

namespace ModuleLinker.Text

/-- The text with the letters A to Z in lower case. -/
def asciiLower (s : String) : String := String.ofList (s.toList.map Char.toLower)

/-- Whether two names are equal without regard to ASCII case. -/
def sameName (s t : String) : Bool := asciiLower s = asciiLower t

theorem sameName_iff {s t : String} : sameName s t = true ↔ asciiLower s = asciiLower t := by
  simp [sameName]

end ModuleLinker.Text
