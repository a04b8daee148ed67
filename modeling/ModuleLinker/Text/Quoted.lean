import ModuleLinker.Text.Printable

/-!
# Quoted text

Texts in listings stand between double quotes. Characters that would end the quotation or the line
are escaped, and so is every character that could not be seen by itself: an unprintable one, or a
mark that would attach itself to its neighbour.
-/

namespace ModuleLinker.Text

/-- A number in hexadecimal digits, without leading zeros. -/
def hexadecimal (n : Nat) : String := String.ofList (Nat.toDigits 16 n)

/-- A character by its code point. -/
def codePoint (c : Char) : String := "\\u\x7b" ++ hexadecimal c.toNat ++ "\x7d"

/-- A character as it stands between quotes. -/
def escapeChar (c : Char) : String :=
  match c with
  | '\x00' => "\\0"
  | '\t' => "\\t"
  | '\r' => "\\r"
  | '\n' => "\\n"
  | '\x22' => "\\\""
  | '\\' => "\\\\"
  | c => if isPrintable c && !isExtending c then c.toString else codePoint c

/-- A text between double quotes. -/
def quote (s : String) : String := "\"" ++ String.join (s.toList.map escapeChar) ++ "\""

end ModuleLinker.Text
