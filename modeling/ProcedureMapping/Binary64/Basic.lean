/-!
# Finite doubles

A finite double is kept as its sign and the 63 bits below it.  With the biased exponent `b` and
the fraction `f` in those bits, its absolute value is

    significand · 2 ^ exponent,   significand < 2 ^ 53,   exponent ≥ -1074,

where the significand is `f` for `b = 0` and `2 ^ 52 + f` otherwise.

Two zeros exist, and they are equal as numbers: `same` is equality of numbers, `=` equality of
bits.

Main statements:

* `significand_lt` — a significand has at most 53 bits;
* `same_refl`, `same_symm`, `same_trans` — equality of numbers is an equivalence.
-/

namespace ProcedureMapping

/-- The weight of the exponent field in the bits of a double, `2 ^ 52`. -/
def exponentUnit : Nat := 0x10000000000000

/-- A finite double: the sign, and the bits below it. -/
structure Binary64 where
  negative : Bool
  magnitude : Nat
  finite : magnitude < 0x7FF * exponentUnit
  deriving DecidableEq

namespace Binary64

/-- The zero of a sign. -/
def zero (negative : Bool) : Binary64 := ⟨negative, 0, by decide⟩

/-- Whether the number is zero, of either sign. -/
def isZero (x : Binary64) : Bool := x.magnitude == 0

/-- The biased exponent. -/
def biased (x : Binary64) : Nat := x.magnitude / exponentUnit

/-- The fraction bits. -/
def fraction (x : Binary64) : Nat := x.magnitude % exponentUnit

/-- The integer significand. -/
def significand (x : Binary64) : Nat :=
  if x.biased = 0 then x.fraction else exponentUnit + x.fraction

/-- The exponent of two that goes with the significand. -/
def exponent (x : Binary64) : Int := (max x.biased 1 : Nat) - 1075

/-- Whether two doubles are the same number: the same bits, or two zeros. -/
def same (x y : Binary64) : Bool := x == y || (x.isZero && y.isZero)

theorem significand_lt (x : Binary64) : x.significand < 2 * exponentUnit := by
  have : x.fraction < exponentUnit := Nat.mod_lt _ (by decide)
  simp only [significand]
  split <;> omega

theorem same_refl (x : Binary64) : x.same x = true := by simp [same]

theorem same_symm {x y : Binary64} (h : x.same y = true) : y.same x = true := by
  simp only [same, Bool.or_eq_true, beq_iff_eq, Bool.and_eq_true] at h ⊢
  exact h.imp Eq.symm And.symm

theorem same_trans {x y z : Binary64} (h : x.same y = true) (k : y.same z = true) :
    x.same z = true := by
  simp only [same, Bool.or_eq_true, beq_iff_eq, Bool.and_eq_true] at h k ⊢
  rcases h with rfl | h
  · exact k
  · rcases k with rfl | k
    · exact .inr h
    · exact .inr ⟨h.1, k.2⟩

end Binary64

end ProcedureMapping
