/-!
# Ranges of characters in UTF-8

The encodings of a range of characters are those of a few products of byte ranges: a range is cut
until its first and last character differ in trailing bytes that run through all their values.
-/

namespace ModuleLinker.Text

/-- The bytes of a character. -/
def utf8Bytes (c : Char) : List Nat := (String.utf8EncodeChar c).map UInt8.toNat

/-- Where a range of code points has to be cut: the first code point of its second part. Lengths of
encodings come first; then a range that runs over several blocks of the same leading bytes gives up
an incomplete block at its beginning or at its end. -/
def utf8Cut? (first last : Nat) : Option Nat :=
  let lengths := [0x7f, 0x7ff, 0xffff].findSome? fun largest ↦
    if first ≤ largest && largest < last then some (largest + 1) else none
  let blocks := [0x40, 0x1000, 0x40000].findSome? fun block ↦
    if first / block = last / block then none
    else if first % block ≠ 0 then some ((first / block + 1) * block)
    else if last % block ≠ block - 1 then some (last / block * block)
    else none
  lengths <|> if last ≤ 0x7f then none else blocks

/-- The products of byte ranges that a range of characters is encoded by, in ascending order. -/
def utf8Sequences (first last : Nat) : List (List (Nat × Nat)) :=
  match utf8Cut? first last with
  | some cut =>
    if first < cut ∧ cut ≤ last then utf8Sequences first (cut - 1) ++ utf8Sequences cut last
    else []
  | none => [(utf8Bytes (Char.ofNat first)).zip (utf8Bytes (Char.ofNat last))]
termination_by last - first

end ModuleLinker.Text
