import ModuleLinker.Pattern.Bracket

/-!
# Tokens of written patterns

A written pattern is first cut into tokens. What a token means may depend on flags that are set
elsewhere in the pattern, so tokens keep their flags apart.

Left out are the flags `x`, under which blanks mean nothing, and `R`, under which a carriage return
and a line feed end a line together; and classes stay those of all scripts, so `u` cannot be
switched off. Patterns that ask for this are refused. Names of groups are made of word characters,
which is a little wider than letters and numbers: marks and connectors may stand in them too. What
is said of a link holds for every way to choose modules, so none of it rests on which patterns can
be written.
-/

namespace ModuleLinker.Pattern

/-- What a flag letter switches. -/
inductive Flag
  | ignoreCase
  | multiLine
  | dotMatchesNewline
  /-- Whether repetitions try few rounds first, which no search can tell. -/
  | lazy
  /-- Classes are those of all scripts; this cannot be switched off. -/
  | allScripts
deriving DecidableEq, Inhabited

/-- Settings of flags, in the order in which they are written. -/
abbrev FlagChanges := List (Flag × Bool)

inductive Token
  | literal (c : Char)
  | dot
  | lineStart
  | lineEnd
  | cls (item : ClassItem)
  | assertion (a : Assertion)
  /-- Open a group that has a number, a name or not. -/
  | openGroup (name : Option String)
  /-- Open a group without a number, with flags of its own. -/
  | openPlainGroup (changes : FlagChanges)
  | setFlags (changes : FlagChanges)
  | closeGroup
  | bar
  | repetition (least : Nat) (most : Option Nat)
deriving DecidableEq, Inhabited

namespace Token

/-! Readers take the rest of the written pattern and give what they read with what is left. -/

/-! ## Groups and flags -/

private def flag? : Char → Option Flag
  | 'i' => some .ignoreCase
  | 'm' => some .multiLine
  | 's' => some .dotMatchesNewline
  | 'U' => some .lazy
  | 'u' => some .allScripts
  | _ => none

/-- The settings that flag letters make; those behind a hyphen are switched off. -/
private def flagChanges (on : Bool) : List Char → Option FlagChanges
  | [] => some []
  | '-' :: rest => if on && !rest.isEmpty then flagChanges false rest else none
  | c :: rest => do
    let flag ← flag? c
    let changes ← flagChanges on rest
    if (changes.map Prod.fst).contains flag || (flag = .allScripts && !on) then none
    return (flag, on) :: changes

private def isGroupNameStart (c : Char) : Bool :=
  Text.isWordChar c && !Text.isDecimalDigit c

private def isGroupNameChar (c : Char) : Bool :=
  Text.isWordChar c || c = '.' || c = '[' || c = ']'

private def readGroupName (rest : List Char) : Except Refusal (Token × List Char) :=
  match rest.takeWhile (· ≠ '>'), rest.dropWhile (· ≠ '>') with
  | first :: more, _ :: rest =>
    if isGroupNameStart first && more.all isGroupNameChar then
      .ok (.openGroup (some (String.ofList (first :: more))), rest)
    else .error .malformedGroupName
  | _, _ => .error .malformedGroupName

/-- Read behind an opening parenthesis. -/
private def readGroup : List Char → Except Refusal (Token × List Char)
  | '?' :: '=' :: _ | '?' :: '!' :: _ | '?' :: '<' :: '=' :: _ | '?' :: '<' :: '!' :: _ =>
    .error .lookAround
  | '?' :: 'P' :: '<' :: rest | '?' :: '<' :: rest => readGroupName rest
  | '?' :: rest =>
    let isEnd (c : Char) : Bool := c = ':' || c = ')'
    match flagChanges true (rest.takeWhile (!isEnd ·)), rest.dropWhile (!isEnd ·) with
    | _, [] => .error .unclosedGroup
    | none, _ => .error .malformedFlags
    | some changes, ':' :: rest => .ok (.openPlainGroup changes, rest)
    | some [], _ => .error .nothingToRepeat
    | some changes, _ :: rest => .ok (.setFlags changes, rest)
  | rest => .ok (.openGroup none, rest)

/-! ## Counted repetitions -/

/-- A 32-bit number in decimal, with white space on both sides. -/
private def readCount (rest : List Char) : Except Refusal (Nat × List Char) :=
  let rest := rest.dropWhile Text.isBlank
  let digits := rest.takeWhile Char.isDigit
  let n := digits.foldl (fun n d ↦ n * 10 + (d.toNat - '0'.toNat)) 0
  if digits.isEmpty || UInt32.size ≤ n then .error .malformedRepetition
  else .ok (n, (rest.dropWhile Char.isDigit).dropWhile Text.isBlank)

/-- Read behind an opening brace. -/
private def readRepetition (rest : List Char) : Except Refusal (Token × List Char) := do
  let (least, rest) ← readCount rest
  match rest with
  | '\x7d' :: rest => return (.repetition least (some least), rest)
  | ',' :: '\x7d' :: rest => return (.repetition least none, rest)
  | ',' :: rest =>
    let (most, rest) ← readCount rest
    match rest with
    | '\x7d' :: rest =>
      if least ≤ most then return (.repetition least (some most), rest)
      else .error .malformedRepetition
    | _ => .error .malformedRepetition
  | _ => .error .malformedRepetition

/-- A question mark behind a repetition makes it prefer fewer rounds, which no search can tell. -/
private def dropLazy : List Char → List Char
  | '?' :: rest => rest
  | rest => rest

/-! ## Tokens -/

/-- Read the first token. -/
def read (c : Char) (rest : List Char) : Except Refusal (Token × List Char) :=
  match c with
  | '.' => .ok (.dot, rest)
  | '^' => .ok (.lineStart, rest)
  | '$' => .ok (.lineEnd, rest)
  | '|' => .ok (.bar, rest)
  | '(' => readGroup rest
  | ')' => .ok (.closeGroup, rest)
  | '[' => do let (i, rest) ← Bracket.read rest; return (.cls i, rest)
  | '*' => .ok (.repetition 0 none, dropLazy rest)
  | '+' => .ok (.repetition 1 none, dropLazy rest)
  | '?' => .ok (.repetition 0 (some 1), dropLazy rest)
  | '\x7b' => do let (t, rest) ← readRepetition rest; return (t, dropLazy rest)
  | '\\' => do
    match ← Escape.read rest with
    | (.literal c, rest) => return (.literal c, rest)
    | (.cls members, rest) => return (.cls (.plain members), rest)
    | (.assertion a, rest) => return (.assertion a, rest)
  | c => .ok (.literal c, rest)

/-- The tokens of at most `bound` characters. -/
private def tokensWithin : (bound : Nat) → List Char → Except Refusal (List Token)
  | _, [] => .ok []
  | 0, _ :: _ => .error .malformedRepetition
  | bound + 1, c :: cs => do
    let (t, rest) ← read c cs
    return t :: (← tokensWithin bound rest)

/-- The tokens of a written pattern; each takes up one character at least. -/
def ofChars (cs : List Char) : Except Refusal (List Token) := tokensWithin cs.length cs

end Token

end ModuleLinker.Pattern
