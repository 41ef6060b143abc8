import ProcedureMapping.Binary64.Scaling
import ProcedureMapping.Json.Reader
import ProcedureMapping.Json.Value
import ProcedureMapping.SortedMap

/-!
# What a document means

A document stands for a value unless one of its numbers is too large for a double or one of its
strings has an unpaired surrogate.  A numeral without point and exponent is an integer if it fits
64 bits, signed or unsigned; the integer numeral `-0` is the negative zero of the doubles.

Every other numeral is read as a double, quickly: the leading digits that fit 64 bits are rounded
to a double, and this is multiplied or divided by a power of ten.  Each step rounds, so that the
result can miss the double nearest to the numeral in its last bits, and two spellings of one
number can be read as different doubles.

Of repeated keys the last one counts.

A text whose arrays and objects nest deeper than `depthLimit` is refused.

Main statements:

* `number?_integer` — which numerals are integers.
-/

namespace ProcedureMapping.Json

open Text (appendDigitsBelow digits)

namespace Numeral

/-- Whether a numeral has neither point nor exponent. -/
def isIntegral (n : Numeral) : Bool := n.fraction.isEmpty && n.exponent.isNone

/-- The bound of the significand that is taken from a numeral: 64 bits. -/
def significandBound : Nat := 0x10000000000000000

/-- The significand and the decimal exponent that are taken from a numeral.  Of the digits before
the point those are taken that fit, and the others count as places; then those behind the point,
up to the first that does not fit, and the others do not count. -/
def parts (n : Numeral) : Nat × Int :=
  let (lead, cut) := appendDigitsBelow significandBound 0 (digits n.whole)
  let (significand, rest) := appendDigitsBelow significandBound lead n.fraction
  (significand, n.exponent.getD 0 + cut.length + rest.length - n.fraction.length)

/-- The double that a numeral is read as: its significand, rounded to a double and then shifted
by its exponent. -/
def float? (n : Numeral) : Option Binary64 :=
  (Binary64.ofRatio? n.negative n.parts.1 1).bind fun x => x.scale? n.parts.2

/-- The integer that an integral numeral stands for, if it fits 64 bits. -/
def integer? (n : Numeral) : Option Int :=
  if n.negative then
    if 0 < n.whole ∧ n.whole ≤ 0x8000000000000000 then some (-n.whole) else none
  else if n.whole < significandBound then some n.whole else none

/-- The number that a numeral stands for. -/
def number? (n : Numeral) : Option Number :=
  match n.isIntegral, n.integer? with
  | true, some i => some (.integer i)
  | _, _ => n.float?.map .float

/-- Which numerals are integers. -/
theorem number?_integer {n : Numeral} {i : Int} :
    n.number? = some (.integer i) ↔ n.isIntegral = true ∧ n.integer? = some i := by
  unfold number?
  split <;> simp_all

end Numeral

namespace Document

mutual

/-- The value that a document stands for. -/
def value? : Document → Option Value
  | null => some .null
  | bool b => some (.bool b)
  | number n => n.number?.map .number
  | string s => (Piece.text? s).map .string
  | array items => (itemValues? items).map .array
  | object members => (memberValues? [] members).map .object

/-- The values of the items of an array. -/
def itemValues? : List Document → Option (List Value)
  | [] => some []
  | d :: rest => do
      let v ← value? d
      let vs ← itemValues? rest
      some (v :: vs)

/-- The members of an object on top of those read before. -/
def memberValues? (read : List (String × Value)) :
    List (List Piece × Document) → Option (List (String × Value))
  | [] => some read
  | (k, d) :: rest => do
      let k ← Piece.text? k
      let v ← value? d
      memberValues? (Entries.insert k v read) rest

end

end Document

/-- How deep arrays and objects may nest in a text. -/
def depthLimit : Nat := 127

/-- The value of a text. -/
def Value.ofText? (s : String) : Option Value :=
  match Document.read? s with
  | some d => if d.depth ≤ depthLimit then d.value? else none
  | none => none

end ProcedureMapping.Json
