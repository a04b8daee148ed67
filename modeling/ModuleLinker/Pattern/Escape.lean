import ModuleLinker.Pattern.Basic

/-!
# Escapes in written patterns

What a backslash introduces: a character, a class of characters or a condition on a position.
Readers take the rest of the written pattern and give what they read with what is left.

Classes by Unicode property, `\p{..}` and `\P{..}`, are left out: they would need the tables of all
properties, and a pattern with one of them is refused.
-/

namespace ModuleLinker.Pattern

/-- Why a written pattern is refused. -/
inductive Refusal
  | unopenedGroup
  | unclosedGroup
  | unclosedClass
  | danglingEscape
  | unknownEscape (c : Char)
  | invalidCodePoint
  | lookAround
  | malformedFlags
  | malformedGroupName
  | duplicateGroupName
  | malformedClass
  | reversedRange
  | nothingToRepeat
  | malformedRepetition
  | nestedTooDeeply
  | tooLarge
deriving DecidableEq, Inhabited

/-- The text shown to the user. -/
def Refusal.message : Refusal → String
  | unopenedGroup => "unopened group"
  | unclosedGroup => "unclosed group"
  | unclosedClass => "unclosed character class"
  | danglingEscape => "incomplete escape sequence"
  | unknownEscape c => "unrecognized escape sequence '" ++ c.toString ++ "'"
  | invalidCodePoint => "invalid code point in escape sequence"
  | lookAround => "look-around is not supported"
  | malformedFlags => "malformed flags"
  | malformedGroupName => "malformed group name"
  | duplicateGroupName => "duplicate group name"
  | malformedClass => "malformed character class"
  | reversedRange => "character class range is reversed"
  | nothingToRepeat => "repetition operator without an operand"
  | malformedRepetition => "malformed counted repetition"
  | nestedTooDeeply => "pattern is nested too deeply"
  | tooLarge => "pattern is too large"

/-- What a backslash introduces. -/
inductive Escape
  | literal (c : Char)
  | cls (members : CharClass)
  | assertion (a : Assertion)
deriving DecidableEq, Inhabited

namespace Escape

private def hexValue? (c : Char) : Option Nat :=
  if '0' ≤ c && c ≤ '9' then some (c.toNat - '0'.toNat)
  else if 'a' ≤ c && c ≤ 'f' then some (c.toNat - 'a'.toNat + 10)
  else if 'A' ≤ c && c ≤ 'F' then some (c.toNat - 'A'.toNat + 10)
  else none

private def codePoint (digits : List Char) : Except Refusal Char :=
  match digits.mapM hexValue? with
  | some values =>
    let n := values.foldl (fun n d ↦ n * 16 + d) 0
    if h : n.isValidChar then
      if digits.isEmpty then .error .invalidCodePoint else .ok (Char.ofNatAux n h)
    else .error .invalidCodePoint
  | none => .error .invalidCodePoint

/-- A code point in hexadecimal: so many digits, or any number of them in braces. -/
private def readCodePoint (width : Nat) (rest : List Char) : Except Refusal (Char × List Char) :=
  match rest with
  | '\x7b' :: inner =>
    let digits := inner.takeWhile (· ≠ '\x7d')
    match inner.dropWhile (· ≠ '\x7d') with
    | _ :: rest => do return (← codePoint digits, rest)
    | [] => .error .danglingEscape
  | _ =>
    if rest.length < width then .error .danglingEscape
    else do return (← codePoint (rest.take width), rest.drop width)

private def isAsciiLetter (c : Char) : Bool := ('a' ≤ c && c ≤ 'z') || ('A' ≤ c && c ≤ 'Z')

/-- ASCII characters other than letters and digits stand for themselves behind a backslash. -/
private def isEscapable (c : Char) : Bool :=
  c.toNat < 128 && !isAsciiLetter c && !('0' ≤ c && c ≤ '9') && c ≠ '<' && c ≠ '>'

/-- A word boundary may name a side in braces; other braces count repetitions. -/
private def readBoundary (rest : List Char) : Except Refusal (Escape × List Char) :=
  let isNameChar (c : Char) : Bool := isAsciiLetter c || c = '-'
  match rest with
  | '\x7b' :: inner =>
    match inner.takeWhile isNameChar, inner.dropWhile isNameChar with
    | [], [] => .error .malformedRepetition
    | [], _ => .ok (.assertion .wordBoundary, rest)
    | name, '\x7d' :: rest =>
      match String.ofList name with
      | "start" => .ok (.assertion .wordStart, rest)
      | "end" => .ok (.assertion .wordEnd, rest)
      | "start-half" => .ok (.assertion .notAfterWord, rest)
      | "end-half" => .ok (.assertion .notBeforeWord, rest)
      | _ => .error (.unknownEscape 'b')
    | _, _ => .error (.unknownEscape 'b')
  | _ => .ok (.assertion .wordBoundary, rest)

/-- Read what follows a backslash. -/
def read : List Char → Except Refusal (Escape × List Char)
  | [] => .error .danglingEscape
  | c :: rest =>
    match c with
    | 'd' => .ok (.cls .digit, rest)
    | 'D' => .ok (.cls CharClass.digit.complement, rest)
    | 's' => .ok (.cls .blank, rest)
    | 'S' => .ok (.cls CharClass.blank.complement, rest)
    | 'w' => .ok (.cls .word, rest)
    | 'W' => .ok (.cls CharClass.word.complement, rest)
    | 'x' => do let (c, rest) ← readCodePoint 2 rest; return (.literal c, rest)
    | 'u' => do let (c, rest) ← readCodePoint 4 rest; return (.literal c, rest)
    | 'U' => do let (c, rest) ← readCodePoint 8 rest; return (.literal c, rest)
    | 'a' => .ok (.literal '\x07', rest)
    | 'f' => .ok (.literal '\x0c', rest)
    | 't' => .ok (.literal '\t', rest)
    | 'n' => .ok (.literal '\n', rest)
    | 'r' => .ok (.literal '\r', rest)
    | 'v' => .ok (.literal '\x0b', rest)
    | 'A' => .ok (.assertion .textStart, rest)
    | 'z' => .ok (.assertion .textEnd, rest)
    | 'B' => .ok (.assertion .notWordBoundary, rest)
    | '<' => .ok (.assertion .wordStart, rest)
    | '>' => .ok (.assertion .wordEnd, rest)
    | 'b' => readBoundary rest
    | c => if isEscapable c then .ok (.literal c, rest) else .error (.unknownEscape c)

end Escape

end ModuleLinker.Pattern
