import ProcedureMapping.Binary64.Nearest
import ProcedureMapping.Text.Digits

/-!
# Scaling by powers of ten

Products and quotients of doubles, each the nearest double to the exact result, and on top of
them the quick way to shift a double by decimal places: **one product or quotient with a power of
ten that is a double itself**.  The power is rounded and so is the result, so a shifted double
need not be the nearest one to the shifted value.

A shift down by more places than the greatest power of ten has is made in several rounds; a shift
up by as many overflows at once.

Main statement: `scale?_zero` — a zero stays the zero of its sign, however far it is shifted up.
-/

namespace ProcedureMapping.Binary64

/-- The product of two doubles; `none` when it overflows. -/
def mul? (x y : Binary64) : Option Binary64 :=
  let q := x.exponent + y.exponent
  ofRatio? (x.negative != y.negative) ((x.significand * y.significand) <<< q.toNat)
    (1 <<< (-q).toNat)

/-- The quotient of two doubles; `none` when it overflows or the divisor is zero. -/
def div? (x y : Binary64) : Option Binary64 :=
  let q := x.exponent - y.exponent
  if y.isZero then none
  else
    ofRatio? (x.negative != y.negative) (x.significand <<< q.toNat)
      (y.significand <<< (-q).toNat)

/-- The exponent of the greatest power of ten among the doubles. -/
def greatestPlaces : Nat := 308

/-- The double nearest to a power of ten. -/
def tenPow? (places : Nat) : Option Binary64 :=
  if places ≤ greatestPlaces then ofRatio? false (Text.tenPow places) 1 else none

/-- Shift a double up by decimal places; `none` when that overflows. -/
def scaleUp? (x : Binary64) (places : Nat) : Option Binary64 :=
  if x.isZero then some x else (tenPow? places).bind x.mul?

/-- Shift a double down by the greatest power of ten, a number of times or until it is zero. -/
def lower? (x : Binary64) : Nat → Option Binary64
  | 0 => some x
  | rounds + 1 =>
      if x.isZero then some x
      else ((tenPow? greatestPlaces).bind x.div?).bind fun y => y.lower? rounds

/-- Shift a double down by decimal places: by the greatest power of ten as often as more places
than it has are left, then by the power for the rest. -/
def scaleDown? (x : Binary64) (places : Nat) : Option Binary64 :=
  let rounds := (places - 1) / greatestPlaces
  (x.lower? rounds).bind fun y => (tenPow? (places - greatestPlaces * rounds)).bind y.div?

/-- Shift a double by decimal places, up or down; `none` when that overflows. -/
def scale? (x : Binary64) : Int → Option Binary64
  | .ofNat places => x.scaleUp? places
  | .negSucc places => x.scaleDown? (places + 1)

/-- A zero stays the zero of its sign, however far it is shifted up. -/
theorem scale?_zero (negative : Bool) (places : Nat) :
    (zero negative).scale? places = some (zero negative) := rfl

end ProcedureMapping.Binary64
