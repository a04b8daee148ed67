import ModuleLinker.Image.Instruction

/-!
# Shortest decimals

A double-precision number stands for all reals that round to it. It is written with the fewest
digits that lie among them, and of two texts with as few digits with the closer one; of two that are
equally close the greater is taken.

Every finite number is a whole multiple of a power of ten, and so are the ends of the interval that
rounds to it. All three are kept as natural numbers in one unit, so the search for the digits is
exact and needs neither division nor rounding of its own.
-/

namespace ModuleLinker

/-- A number and the ends of the interval that rounds to it, in units of `10 ^ -scale`. -/
structure Rounding where
  value : Nat
  low : Nat
  high : Nat
  /-- Whether the ends round to the number too. -/
  closed : Bool
  scale : Nat
deriving DecidableEq

namespace Rounding

/-- The number `m * 2 ^ q`. Below it the interval is half as wide when the number is the first after
a change of exponent. -/
def ofBinary (m : Nat) (q : Int) (narrowBelow : Bool) : Rounding :=
  let scale := (2 - q).toNat
  let unit := Nat.pow 2 (q - 2).toNat * Nat.pow 5 scale
  { value := 4 * m * unit
    low := (4 * m - if narrowBelow then 1 else 2) * unit
    high := (4 * m + 2) * unit
    closed := m % 2 = 0
    scale }

/-- Whether a multiple of the unit rounds to the number. -/
def accepts (r : Rounding) (n : Nat) : Bool :=
  if r.closed then r.low ≤ n && n ≤ r.high else r.low < n && n < r.high

/-- The closer of the two neighbours on a grid that round to the number. -/
def onGrid? (r : Rounding) (step : Nat) : Option Nat :=
  let below := r.value / step * step
  let above := below + step
  match r.accepts below, r.accepts above with
  | true, true => some (if r.value - below < above - r.value then below else above)
  | true, false => some below
  | false, true => some above
  | false, false => none

/-- The neighbour on the coarsest decimal grid that has one. -/
def shortest (r : Rounding) : Nat :=
  let cuts := (List.range (Nat.toDigits 10 r.value).length).reverse
  (cuts.findSome? fun cut ↦ r.onGrid? (Nat.pow 10 cut)).getD r.value

end Rounding

/-! ## Text -/

/-- Digits with a decimal point before the last `scale` of them; a fraction of zeros is left out. -/
def positional (n scale : Nat) : String :=
  let digits := Nat.toDigits 10 n
  let padded := List.replicate (scale + 1 - digits.length) '0' ++ digits
  let whole := padded.take (padded.length - scale)
  let fraction := ((padded.drop (padded.length - scale)).reverse.dropWhile (· = '0')).reverse
  if fraction.isEmpty then String.ofList whole
  else String.ofList whole ++ "." ++ String.ofList fraction

namespace Double

def isNegative (x : Double) : Bool := Nat.pow 2 63 ≤ x.bits.toNat

/-- The biased exponent. -/
def exponentBits (x : Double) : Nat := x.bits.toNat / Nat.pow 2 52 % Nat.pow 2 11

/-- The significand without its leading one. -/
def fractionBits (x : Double) : Nat := x.bits.toNat % Nat.pow 2 52

/-- The interval of a finite number, without regard to its sign. -/
def rounding (x : Double) : Rounding :=
  if x.exponentBits = 0 then .ofBinary x.fractionBits (-1074) false
  else .ofBinary (Nat.pow 2 52 + x.fractionBits) (x.exponentBits - 1075)
    (x.fractionBits = 0 && 1 < x.exponentBits)

/-- The shortest decimal of a number, without an exponent. -/
def text (x : Double) : String :=
  let sign := if x.isNegative then "-" else ""
  if x.exponentBits = Nat.pow 2 11 - 1 then
    if x.fractionBits = 0 then sign ++ "inf" else "NaN"
  else
    let r := x.rounding
    sign ++ positional r.shortest r.scale

end Double

end ModuleLinker
