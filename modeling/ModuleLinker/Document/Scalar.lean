import ModuleLinker.Document.Basic

/-!
# Scalars in document texts

Documents are kept as TOML texts. This module reads what stands between the punctuation: strings,
numbers and truth values. A scanner takes what it reads off the front of a text and leaves the rest;
it refuses by answering nothing.
-/

namespace ModuleLinker.Document

/-- Reads something off the front of a text. -/
abbrev Scanner (α : Type) := List Char → Option (α × List Char)

/-- The text behind a given start, if the text starts so. -/
def expect (start : List Char) (s : List Char) : Option (List Char) := start.isPrefixOf? s

/-! ## Strings -/

/-- The value of a hexadecimal digit. -/
def hexDigit? (c : Char) : Option Nat :=
  if '0' ≤ c ∧ c ≤ '9' then some (c.toNat - '0'.toNat)
  else if 'a' ≤ c ∧ c ≤ 'f' then some (c.toNat - 'a'.toNat + 10)
  else if 'A' ≤ c ∧ c ≤ 'F' then some (c.toNat - 'A'.toNat + 10)
  else none

/-- The character of a code point, which must not be a surrogate. -/
def charOfCode? (code : Nat) : Option Char :=
  if code.isValidChar then some (Char.ofNat code) else none

/-- What a backslash and a character stand for. -/
def escaped? : Char → Option Char
  | 'b' => some '\x08'
  | 't' => some '\t'
  | 'n' => some '\n'
  | 'f' => some '\x0c'
  | 'r' => some '\r'
  | '\x22' => some '\x22'
  | '\\' => some '\\'
  | _ => none

/-- Whether a character has to be escaped. -/
def isControl (c : Char) : Bool := (c.toNat < 0x20 && c ≠ '\t') || c.toNat = 0x7f

/-- Where a scan of a string stands. -/
inductive StringState
  | plain
  /-- Behind a backslash. -/
  | escape
  /-- Inside a code point, with this many digits to come after the next one. -/
  | code (more value : Nat)
  /-- Behind a backslash at the end of a line, where white space is left out. -/
  | trim

/-- Whether a quotation ends before `rest`, a quote having just been read. Three quotes end a string
of several lines, and quotes directly before them belong to it. -/
def closes (quote : Char) (multiline : Bool) (rest : List Char) : Bool :=
  !multiline || ([quote, quote].isPrefixOf rest && !([quote, quote, quote].isPrefixOf rest))

/-- The text behind the end of a quotation. -/
def behindClose (multiline : Bool) (rest : List Char) : List Char :=
  if multiline then rest.drop 2 else rest

/-- Put a character in front of what a scan reads. -/
def push (c : Char) (r : Option (List Char × List Char)) : Option (List Char × List Char) :=
  r.map fun (cs, rest) ↦ (c :: cs, rest)

/-- The rest of a string with escapes. -/
def scanEscaped (multiline : Bool) : StringState → Scanner (List Char)
  | _, [] => none
  | .plain, c :: rest =>
    if c = '\x22' then
      if closes '\x22' multiline rest then some ([], behindClose multiline rest)
      else push c (scanEscaped multiline .plain rest)
    else if c = '\\' then scanEscaped multiline .escape rest
    else if isControl c && !(multiline && (c = '\n' || c = '\r')) then none
    else push c (scanEscaped multiline .plain rest)
  | .escape, c :: rest =>
    if c = 'u' then scanEscaped multiline (.code 3 0) rest
    else if c = 'U' then scanEscaped multiline (.code 7 0) rest
    else if multiline && (c = '\n' || c = ' ' || c = '\t' || c = '\r') then
      scanEscaped multiline .trim rest
    else
      match escaped? c with
      | some e => push e (scanEscaped multiline .plain rest)
      | none => none
  | .code more value, c :: rest =>
    match hexDigit? c with
    | none => none
    | some d =>
      match more with
      | n + 1 => scanEscaped multiline (.code n (value * 16 + d)) rest
      | 0 =>
        match charOfCode? (value * 16 + d) with
        | some e => push e (scanEscaped multiline .plain rest)
        | none => none
  | .trim, c :: rest =>
    if c = '\n' || c = ' ' || c = '\t' || c = '\r' then scanEscaped multiline .trim rest
    else if c = '\x22' then
      if closes '\x22' multiline rest then some ([], behindClose multiline rest)
      else push c (scanEscaped multiline .plain rest)
    else if c = '\\' then scanEscaped multiline .escape rest
    else if isControl c then none
    else push c (scanEscaped multiline .plain rest)

/-- The rest of a string without escapes. -/
def scanLiteral (multiline : Bool) : Scanner (List Char)
  | [] => none
  | c :: rest =>
    if c = '\x27' && closes '\x27' multiline rest then some ([], behindClose multiline rest)
    else if isControl c && !(multiline && (c = '\n' || c = '\r')) then none
    else push c (scanLiteral multiline rest)

/-- A line end directly behind the opening quotes does not belong to the string. -/
def skipFirstLineEnd : List Char → List Char
  | '\n' :: rest => rest
  | '\r' :: '\n' :: rest => rest
  | s => s

/-- A string between quotes of any kind. -/
def scanString (s : List Char) : Option (String × List Char) :=
  let found :=
    match expect ['\x22', '\x22', '\x22'] s, expect ['\x27', '\x27', '\x27'] s, s with
    | some rest, _, _ => scanEscaped true .plain (skipFirstLineEnd rest)
    | _, some rest, _ => scanLiteral true (skipFirstLineEnd rest)
    | _, _, '\x22' :: rest => scanEscaped false .plain rest
    | _, _, '\x27' :: rest => scanLiteral false rest
    | _, _, _ => none
  found.map fun (cs, rest) ↦ (String.ofList cs, rest)

/-! ## Numbers and truth values -/

/-- The value of digits of a base, which may have single underscores between them. -/
def digits? (base : Nat) (s : List Char) : Option Nat := do
  let (value, ended) ← s.foldlM (fun (value, afterDigit) c ↦
    if c = '_' then if afterDigit then some (value, false) else none
    else do
      let d ← hexDigit? c
      if d < base then return (value * base + d, true) else none) (0, false)
  if ended then return value else none

/-- Whether decimal digits start with a zero that is not the only one. -/
def hasLeadingZero (s : List Char) : Bool := s.head? = some '0' && 1 < s.length

/-- A sign and what stands behind it. -/
def splitSign : List Char → Bool × List Char
  | '-' :: rest => (true, rest)
  | '+' :: rest => (false, rest)
  | s => (false, s)

/-- A whole number. -/
def integer? (s : List Char) : Option Int :=
  match s with
  | '0' :: 'x' :: rest => (digits? 16 rest).map Int.ofNat
  | '0' :: 'o' :: rest => (digits? 8 rest).map Int.ofNat
  | '0' :: 'b' :: rest => (digits? 2 rest).map Int.ofNat
  | _ =>
    let (negative, rest) := splitSign s
    if hasLeadingZero rest then none
    else (digits? 10 rest).map fun n ↦ if negative then -Int.ofNat n else Int.ofNat n

/-- The bits of a number with a sign. -/
def signed (negative : Bool) (x : Float) : Double :=
  ⟨if negative then (-x).toBits else x.toBits⟩

/-- The number `mantissa * 10 ^ exponent`. -/
def scientific (negative : Bool) (mantissa : Nat) (exponent : Int) : Double :=
  signed negative (Float.ofScientific mantissa (exponent < 0) (min exponent.natAbs 100000))

/-- A number with a point or an exponent, or one that is not finite. -/
def float? (s : List Char) : Option Double :=
  let (negative, rest) := splitSign s
  if rest = "inf".toList then
    some ⟨if negative then 0xfff0000000000000 else 0x7ff0000000000000⟩
  else if rest = "nan".toList then some ⟨0x7ff8000000000000⟩
  else do
    let isMark (c : Char) : Bool := c = 'e' || c = 'E'
    let written := rest.takeWhile fun c ↦ !isMark c
    let whole := written.takeWhile (· ≠ '.')
    let exponent ← match rest.dropWhile fun c ↦ !isMark c with
      | [] => some 0
      | _ :: e =>
        let (down, e) := splitSign e
        (digits? 10 e).map fun n ↦ if down then -Int.ofNat n else Int.ofNat n
    if hasLeadingZero whole then none
    let n ← digits? 10 whole
    match written.dropWhile (· ≠ '.') with
    | [] =>
      if rest.any isMark then return scientific negative n exponent else none
    | _ :: fraction =>
      let f ← digits? 10 fraction
      let places := (fraction.filter (· ≠ '_')).length
      return scientific negative (n * Nat.pow 10 places + f) (exponent - places)

/-- Whether a character may stand in a number or a truth value. -/
def isWordChar (c : Char) : Bool := c.isAlphanum || c = '_' || c = '+' || c = '-' || c = '.'

/-- A number or a truth value. -/
def scanWord (s : List Char) : Option (Document × List Char) :=
  let word := s.takeWhile isWordChar
  let value :=
    if word = "true".toList then some (.bool true)
    else if word = "false".toList then some (.bool false)
    else (integer? word).map Document.int <|> (float? word).map Document.float
  value.map fun d ↦ (d, s.dropWhile isWordChar)

end ModuleLinker.Document
