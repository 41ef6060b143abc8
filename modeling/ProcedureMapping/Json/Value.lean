import ProcedureMapping.Binary64.Shortest
import ProcedureMapping.Json.Document

/-!
# JSON values

The values that annotations hold.  A number is an integer or a finite double, and the two kinds
never compare equal; the members of an object are kept by ascending key, each key once.

Two values are **the same** when they are built alike from the same parts; doubles are compared as
numbers, so that the two zeros are the same value although their texts differ.

Main statements:

* `Value.same_refl`, `Value.same_comm`, `Value.same_trans` — sameness is an equivalence.
-/

namespace ProcedureMapping

open Text (Digit ofDigits)

namespace Json

/-- A number as a value. -/
inductive Number where
  | integer (i : Int)
  | float (x : Binary64)
  deriving DecidableEq

/-- A JSON value. -/
inductive Value where
  | null
  | bool (b : Bool)
  | number (n : Number)
  | string (s : String)
  | array (items : List Value)
  | object (members : List (String × Value))

/-! ## Sameness -/

/-- Whether two numbers are the same number of the same kind. -/
def Number.same : Number → Number → Bool
  | integer i, integer j => i == j
  | float x, float y => x.same y
  | _, _ => false

namespace Value

mutual

/-- Whether two values are the same. -/
def same : Value → Value → Bool
  | null, null => true
  | bool a, bool b => a == b
  | number m, number n => m.same n
  | string s, string t => s == t
  | array xs, array ys => sameItems xs ys
  | object xs, object ys => sameMembers xs ys
  | _, _ => false

/-- Whether two lists hold the same values in the same order. -/
def sameItems : List Value → List Value → Bool
  | [], [] => true
  | x :: xs, y :: ys => same x y && sameItems xs ys
  | _, _ => false

/-- Whether two lists hold the same values under the same keys in the same order. -/
def sameMembers : List (String × Value) → List (String × Value) → Bool
  | [], [] => true
  | (j, x) :: xs, (k, y) :: ys => j == k && same x y && sameMembers xs ys
  | _, _ => false

end

end Value

/-! ## Text -/

/-- Which exponents of the first digit are written positionally. -/
structure PlainRange where
  least : Int
  greatest : Int

/-- A double is written positionally when the exponent of its first digit is from -5 to 15. -/
def plainRange : PlainRange := ⟨-5, 15⟩

/-- The numeral of a decimal.  A positional numeral has at least one digit after the point; the
other form has one digit before it and only the digits that are left after it. -/
def decimalNumeral (negative : Bool) (d : Binary64.Decimal) : Numeral :=
  let e := d.exponent
  if plainRange.least ≤ e ∧ e ≤ plainRange.greatest then
    if e < 0 then ⟨negative, 0, List.replicate (-e - 1).toNat Digit.zero ++ d.digits, none⟩
    else
      let places := e.toNat + 1
      let whole := d.digits.take places
      let fraction := d.digits.drop places
      ⟨negative, ofDigits (whole ++ List.replicate (places - whole.length) Digit.zero),
        if fraction.isEmpty then [Digit.zero] else fraction, none⟩
  else ⟨negative, ofDigits (d.digits.take 1), d.digits.drop 1, some e⟩

/-- The numeral of a double. -/
def floatNumeral (x : Binary64) : Numeral :=
  if x.isZero then ⟨x.negative, 0, [Digit.zero], none⟩ else decimalNumeral x.negative x.shortest

/-- The numeral of a number. -/
def Number.numeral : Number → Numeral
  | integer i => ⟨i < 0, i.natAbs, [], none⟩
  | float x => floatNumeral x

namespace Value

mutual

/-- The document of a value. -/
def document : Value → Document
  | null => .null
  | bool b => .bool b
  | number n => .number n.numeral
  | string s => .ofString s
  | array items => .array (itemDocuments items)
  | object members => .object (memberDocuments members)

/-- The documents of the items of an array. -/
def itemDocuments : List Value → List Document
  | [] => []
  | v :: rest => document v :: itemDocuments rest

/-- The documents of the members of an object. -/
def memberDocuments : List (String × Value) → List (List Piece × Document)
  | [] => []
  | (k, v) :: rest => (Piece.ofString k, document v) :: memberDocuments rest

end

/-- The compact text of a value. -/
def text (v : Value) : String := v.document.text

end Value

/-! ## Sameness is an equivalence -/

theorem Number.same_refl (n : Number) : n.same n = true := by
  cases n <;> simp [same, Binary64.same_refl]

theorem Number.same_comm (m n : Number) : m.same n = n.same m := by
  cases m <;> cases n <;> simp only [same]
  · exact BEq.comm
  · exact Bool.eq_iff_iff.2 ⟨Binary64.same_symm, Binary64.same_symm⟩

theorem Number.same_trans {l m n : Number} (h : l.same m = true) (k : m.same n = true) :
    l.same n = true := by
  cases l <;> cases m <;> cases n <;> simp_all [same]
  exact Binary64.same_trans h k

namespace Value

mutual

theorem same_refl : (v : Value) → v.same v = true
  | null => rfl
  | bool _ => by simp [same]
  | number n => by simp [same, n.same_refl]
  | string _ => by simp [same]
  | array xs => by simp [same, sameItems_refl xs]
  | object xs => by simp [same, sameMembers_refl xs]

theorem sameItems_refl : (xs : List Value) → sameItems xs xs = true
  | [] => rfl
  | x :: xs => by simp [sameItems, same_refl x, sameItems_refl xs]

theorem sameMembers_refl : (xs : List (String × Value)) → sameMembers xs xs = true
  | [] => rfl
  | (_, x) :: xs => by simp [sameMembers, same_refl x, sameMembers_refl xs]

end

mutual

theorem same_comm : (v w : Value) → v.same w = w.same v
  | null, w => by cases w <;> rfl
  | bool a, w => by cases w <;> simp only [same]; exact BEq.comm
  | number m, w => by cases w <;> simp only [same]; exact m.same_comm _
  | string s, w => by cases w <;> simp only [same]; exact BEq.comm
  | array xs, w => by cases w <;> simp only [same]; exact sameItems_comm xs _
  | object xs, w => by cases w <;> simp only [same]; exact sameMembers_comm xs _

theorem sameItems_comm : (xs ys : List Value) → sameItems xs ys = sameItems ys xs
  | [], ys => by cases ys <;> rfl
  | x :: xs, ys => by
      cases ys with
      | nil => rfl
      | cons y ys => rw [sameItems, sameItems, same_comm x y, sameItems_comm xs ys]

theorem sameMembers_comm :
    (xs ys : List (String × Value)) → sameMembers xs ys = sameMembers ys xs
  | [], ys => by cases ys <;> rfl
  | (j, x) :: xs, ys => by
      cases ys with
      | nil => rfl
      | cons y ys =>
          rw [sameMembers, sameMembers, same_comm x y.2, sameMembers_comm xs ys,
            BEq.comm (a := j)]

end

mutual

theorem same_trans : (u v w : Value) → u.same v = true → v.same w = true → u.same w = true
  | null, v, w, h, k => by cases v <;> simp [same] at h; exact k
  | bool a, v, w, h, k => by
      cases v <;> simp [same] at h
      subst h
      exact k
  | number m, v, w, h, k => by
      cases v <;> simp only [same] at h <;> try cases h
      cases w <;> simp only [same] at k <;> try cases k
      exact Number.same_trans h k
  | string s, v, w, h, k => by
      cases v <;> simp [same] at h
      subst h
      exact k
  | array xs, v, w, h, k => by
      cases v <;> simp only [same] at h <;> try cases h
      cases w <;> simp only [same] at k <;> try cases k
      exact sameItems_trans xs _ _ h k
  | object xs, v, w, h, k => by
      cases v <;> simp only [same] at h <;> try cases h
      cases w <;> simp only [same] at k <;> try cases k
      exact sameMembers_trans xs _ _ h k

theorem sameItems_trans : (xs ys zs : List Value) → sameItems xs ys = true →
    sameItems ys zs = true → sameItems xs zs = true
  | [], ys, zs, h, k => by cases ys <;> simp [sameItems] at h; exact k
  | x :: xs, ys, zs, h, k => by
      cases ys with
      | nil => simp [sameItems] at h
      | cons y ys =>
          cases zs with
          | nil => simp [sameItems] at k
          | cons z zs =>
              simp only [sameItems, Bool.and_eq_true] at h k ⊢
              exact ⟨same_trans x y z h.1 k.1, sameItems_trans xs ys zs h.2 k.2⟩

theorem sameMembers_trans : (xs ys zs : List (String × Value)) → sameMembers xs ys = true →
    sameMembers ys zs = true → sameMembers xs zs = true
  | [], ys, zs, h, k => by cases ys <;> simp [sameMembers] at h; exact k
  | (j, x) :: xs, ys, zs, h, k => by
      cases ys with
      | nil => simp [sameMembers] at h
      | cons y ys =>
          cases zs with
          | nil => simp [sameMembers] at k
          | cons z zs =>
              simp only [sameMembers, Bool.and_eq_true, beq_iff_eq] at h k ⊢
              exact ⟨⟨h.1.1.trans k.1.1, same_trans x y.2 z.2 h.1.2 k.1.2⟩,
                sameMembers_trans xs ys zs h.2 k.2⟩

end

end Value

end Json

end ProcedureMapping
