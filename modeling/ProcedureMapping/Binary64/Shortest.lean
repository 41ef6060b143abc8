import ProcedureMapping.Binary64.Basic
import ProcedureMapping.Text.Digits

/-!
# The shortest decimal of a double

The decimals that round to a double `m · 2 ^ q` form an interval, half a unit to each side of it
(a quarter below a power of two, where the spacing changes), ends included when `m` is even.  The
**shortest decimal** of the double is the decimal of fewest digits in that interval, and of those
the one nearest to the double.

For each number of digits the value lies between two neighbours on the grid of such decimals; if
any point of the grid is in the interval, one of these two is.  So it is enough to test them, for
one digit, two digits and so on; seventeen always suffice.
-/

namespace ProcedureMapping.Binary64

open Text (Digit digits tenPow)

/-- The interval that rounds to a double, in units of a quarter of `2 ^ exponent`, and whether
its ends belong to it. -/
structure RoundingInterval where
  lower : Nat
  upper : Nat
  closed : Bool

/-- The interval that rounds to `x`. -/
def roundingInterval (x : Binary64) : RoundingInterval where
  lower := 4 * x.significand - (if x.fraction = 0 ∧ 1 < x.biased then 1 else 2)
  upper := 4 * x.significand + 2
  closed := x.significand % 2 = 0

/-- Whether `point / scale` lies in an interval. -/
def RoundingInterval.contains (i : RoundingInterval) (point scale : Nat) : Bool :=
  if i.closed then i.lower * scale ≤ point && point ≤ i.upper * scale
  else i.lower * scale < point && point < i.upper * scale

/-- Of `c` and `c + 1`, the nearer to `num / den`; a tie goes to the even one. -/
def nearer (c num den : Nat) : Nat :=
  if 2 * num < (2 * c + 1) * den then c
  else if (2 * c + 1) * den < 2 * num then c + 1
  else if c % 2 = 0 then c else c + 1

/-- The multiple of `10 ^ place` next to `x` that rounds to `x`, as a count, if there is one. -/
def onGrid? (x : Binary64) (place : Int) : Option Nat :=
  let unit := x.exponent - 2
  let scale := tenPow (-place).toNat <<< unit.toNat
  let grid := tenPow place.toNat <<< (-unit).toNat
  let num := 4 * x.significand * scale
  let c := num / grid
  let i := x.roundingInterval
  match i.contains (c * grid) scale, i.contains ((c + 1) * grid) scale with
  | true, true => some (nearer c num grid)
  | true, false => some c
  | false, true => some (c + 1)
  | false, false => none

/-- The decimal exponent of the first digit of a double that is not zero.  Scaled by `10 ^ 400`
even the smallest double has an integer part. -/
def firstPlace (x : Binary64) : Int :=
  let unit := x.exponent - 2
  let scaled := ((4 * x.significand * tenPow 400) <<< unit.toNat) >>> (-unit).toNat
  ((digits scaled).length : Int) - 401

/-- A decimal `0.d₁d₂… · 10 ^ (exponent + 1)`: its digits, and the exponent of the first. -/
structure Decimal where
  digits : List Digit
  exponent : Int

/-- The decimal `count · 10 ^ place` without trailing zeros. -/
def Decimal.ofCount (count : Nat) (place : Int) : Decimal where
  digits := ((Text.digits count).reverse.dropWhile (· == Digit.zero)).reverse
  exponent := place + (Text.digits count).length - 1

/-- Look for the shortest decimal among those of `n`, `n + 1`, … digits. -/
def shortestFrom (x : Binary64) (first : Int) : Nat → Nat → Option Decimal
  | 0, _ => none
  | tries + 1, n =>
      let place := first - n + 1
      match x.onGrid? place with
      | some count => some (.ofCount count place)
      | none => shortestFrom x first tries (n + 1)

/-- The shortest decimal of a double that is not zero. -/
def shortest (x : Binary64) : Decimal :=
  (x.shortestFrom x.firstPlace 17 1).getD ⟨[Digit.zero], 0⟩

end ProcedureMapping.Binary64
