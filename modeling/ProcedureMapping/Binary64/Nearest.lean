import ProcedureMapping.Binary64.Basic

/-!
# The nearest double

The double nearest to a quotient of natural numbers, computed exactly: the quotient is measured
in the unit of the doubles around it, and the rounding to a whole number of units sends a tie to
the even neighbour.  A quotient that rounds past the largest finite double has none.

Main statements:

* `divRound_mul` — rounding is exact on exact quotients;
* `divRound_le`, `le_divRound` — the result is within half a unit of the quotient.
-/

namespace ProcedureMapping.Binary64

/-- The whole number nearest to `num / den`; a tie goes to the even one. -/
def divRound (num den : Nat) : Nat :=
  let q := num / den
  let r := num % den
  if 2 * r < den then q
  else if den < 2 * r then q + 1
  else if q % 2 = 0 then q else q + 1

/-- The binary exponent of a positive quotient: the `e` with `2 ^ e ≤ num / den < 2 ^ (e + 1)`. -/
def quotientLog2 (num den : Nat) : Int :=
  let e : Int := (num.log2 : Int) - (den.log2 : Int)
  if den <<< e.toNat ≤ num <<< (-e).toNat then e else e - 1

/-- The bits, below the sign, of the double nearest to `num / den`, without regard to overflow.

The unit of the doubles around the quotient is `2 ^ (k - 1074)`.  Each step of `k` passes `2 ^ 52`
bit patterns, and a quotient that rounds up to the next power of two carries into the exponent
field by itself. -/
def nearestBits (num den : Nat) : Nat :=
  let k := (quotientLog2 num den + 1022).toNat
  divRound (num <<< 1074) (den <<< k) + k * exponentUnit

/-- The finite double with a sign and the bits below it. -/
def ofBits? (negative : Bool) (bits : Nat) : Option Binary64 :=
  if h : bits < 0x7FF * exponentUnit then some ⟨negative, bits, h⟩ else none

/-- The double nearest to `± num / den`; `none` when that overflows. -/
def ofRatio? (negative : Bool) (num den : Nat) : Option Binary64 :=
  if num = 0 then some (zero negative) else ofBits? negative (nearestBits num den)

/-- Rounding is exact on exact quotients. -/
theorem divRound_mul (q : Nat) {den : Nat} (h : 0 < den) : divRound (q * den) den = q := by
  simp [divRound, Nat.mul_div_cancel _ h, h]

/-- The rounded quotient is at most half a unit above the quotient. -/
theorem divRound_le (num den : Nat) : 2 * (divRound num den * den) ≤ 2 * num + den := by
  have hd := Nat.div_add_mod num den
  simp only [divRound]
  generalize num / den = q at hd ⊢
  generalize num % den = r at hd ⊢
  rw [Nat.mul_comm] at hd
  split
  · omega
  · split
    · rw [Nat.add_mul]; omega
    · split
      · omega
      · rw [Nat.add_mul]; omega

/-- The rounded quotient is at most half a unit below the quotient. -/
theorem le_divRound (num : Nat) {den : Nat} (h : 0 < den) :
    2 * num ≤ 2 * (divRound num den * den) + den := by
  have hd := Nat.div_add_mod num den
  have hr := Nat.mod_lt num h
  simp only [divRound]
  generalize num / den = q at hd ⊢
  generalize num % den = r at hd hr ⊢
  rw [Nat.mul_comm] at hd
  split
  · omega
  · split
    · rw [Nat.add_mul]; omega
    · split
      · omega
      · rw [Nat.add_mul]; omega

end ProcedureMapping.Binary64
