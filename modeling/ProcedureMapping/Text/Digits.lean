/-!
# Decimal digits

Natural numbers in decimal: their digits, most significant first and without leading zeros, and
the number that a list of digits stands for.

Main statements:

* `ofDigits_digits` — a number is read back from its digits;
* `takeDigits_append` — and its digits are split off whole from a text that begins with them;
* `head?_digits_ne_zero` — only zero starts with a zero;
* `ofChar?_toChar` — a digit is read back from its character.
-/

namespace ProcedureMapping.Text

/-- A decimal digit. -/
abbrev Digit := Fin 10

/-- The digit zero. -/
def Digit.zero : Digit := ⟨0, by decide⟩

/-- Ten to the power `n`: a number times this is shifted by `n` decimal places. -/
def tenPow (n : Nat) : Nat := Nat.pow 10 n

/-- The character of a digit. -/
def Digit.toChar (d : Digit) : Char := Char.ofNat (48 + d.val)

/-- The digit of a character. -/
def Digit.ofChar? (c : Char) : Option Digit :=
  if h : 48 ≤ c.toNat ∧ c.toNat < 58 then some ⟨c.toNat - 48, by omega⟩ else none

/-- The number that the digits of `n` and the given digits after them stand for. -/
def appendDigits (n : Nat) (ds : List Digit) : Nat := ds.foldl (fun n d => 10 * n + d.val) n

/-- The number that digits stand for. -/
def ofDigits (ds : List Digit) : Nat := appendDigits 0 ds

/-- Append digits to a number as long as it stays below a bound: the number, and the digits from
the first that did not fit. -/
def appendDigitsBelow (bound n : Nat) : List Digit → Nat × List Digit
  | [] => (n, [])
  | d :: ds =>
      if 10 * n + d.val < bound then appendDigitsBelow bound (10 * n + d.val) ds else (n, d :: ds)

/-- The digits of a number, most significant first. -/
def digits (n : Nat) : List Digit :=
  if h : n < 10 then [⟨n, h⟩] else digits (n / 10) ++ [⟨n % 10, Nat.mod_lt _ (by decide)⟩]

/-- Split off the longest run of digits. -/
def takeDigits : List Char → List Digit × List Char
  | [] => ([], [])
  | c :: cs =>
      match Digit.ofChar? c with
      | some d => (d :: (takeDigits cs).1, (takeDigits cs).2)
      | none => ([], c :: cs)

theorem Digit.ofChar?_toChar (d : Digit) : Digit.ofChar? d.toChar = some d := by
  revert d
  decide

theorem ofDigits_append_singleton (ds : List Digit) (d : Digit) :
    ofDigits (ds ++ [d]) = 10 * ofDigits ds + d.val := by
  simp [ofDigits, appendDigits]

/-- **A number is read back from its digits.** -/
theorem ofDigits_digits (n : Nat) : ofDigits (digits n) = n := by
  induction n using Nat.strongRecOn with
  | _ n ih =>
    rw [digits]
    split
    · simp [ofDigits, appendDigits]
    · rw [ofDigits_append_singleton, ih (n / 10) (by omega)]
      simp only
      omega

theorem digits_ne_nil (n : Nat) : digits n ≠ [] := by
  rw [digits]
  split <;> simp

/-- Only zero starts with a zero. -/
theorem head?_digits_ne_zero {n : Nat} (h : 0 < n) : (digits n).head? ≠ some Digit.zero := by
  induction n using Nat.strongRecOn with
  | _ n ih =>
    rw [digits]
    split
    · intro k
      have := congrArg (Option.map Fin.val) k
      simp [Digit.zero] at this
      omega
    · have hq := ih (n / 10) (by omega) (by omega)
      cases hd : digits (n / 10) with
      | nil => exact absurd hd (digits_ne_nil _)
      | cons d ds => simpa [hd] using hq

/-- A run of digits is split off whole when none follows. -/
theorem takeDigits_append (ds : List Digit) {rest : List Char}
    (h : ∀ c, rest.head? = some c → Digit.ofChar? c = none) :
    takeDigits (ds.map Digit.toChar ++ rest) = (ds, rest) := by
  induction ds with
  | nil =>
      cases rest with
      | nil => rfl
      | cons c cs => simp [takeDigits, h c rfl]
  | cons d ds ih => simp [takeDigits, Digit.ofChar?_toChar, ih]

end ProcedureMapping.Text
