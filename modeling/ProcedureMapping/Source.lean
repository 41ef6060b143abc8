/-!
# Configuration sources

Everything a user or a convention configures is recorded together with the **source** that
configured it.  Sources are ordered by strength,

    convention < data annotation < explicit,

and a write gets through when its source is at least as strong as the recorded one.  An unset
record (`none`) is weaker than every source.

Main statements:

* `overrides_iff` — a source overrides exactly what is unset or not stronger;
* `overrides_max` — what is recorded after a write overrides both what was written and what was
  there before;
* `max_of_overrides` — an accepted stronger write leaves its own source behind.
-/

namespace ProcedureMapping

/-- Who configured something, weakest first: a convention on its own, a convention that an
attribute on the mapped type called for (a data annotation), or explicit code. -/
inductive Source where
  | convention
  | annotated
  | explicit
  deriving DecidableEq

namespace Source

/-- All sources, weakest first. -/
def all : List Source := [convention, annotated, explicit]

/-- The strength of a source. -/
def rank : Source → Nat
  | convention => 0
  | annotated => 1
  | explicit => 2

instance : LE Source := ⟨fun a b => a.rank ≤ b.rank⟩
instance : LT Source := ⟨fun a b => a.rank < b.rank⟩
instance (a b : Source) : Decidable (a ≤ b) := inferInstanceAs (Decidable (a.rank ≤ b.rank))
instance (a b : Source) : Decidable (a < b) := inferInstanceAs (Decidable (a.rank < b.rank))
instance : Ord Source := ⟨compareOn rank⟩

/-- The name of a source in running text. -/
def text : Source → String
  | convention => "convention"
  | annotated => "data_annotation"
  | explicit => "explicit"

/-- The name of a source as data. -/
def name : Source → String
  | convention => "Convention"
  | annotated => "DataAnnotation"
  | explicit => "Explicit"

/-- The source that goes by `n` as data. -/
def ofName? (n : String) : Option Source := all.find? (·.name == n)

/-- A convention speaks with the strength of a data annotation when an attribute of the mapped
type called for it. -/
def ofConvention (byAttribute : Bool) : Source :=
  if byAttribute then annotated else convention

/-- Whether `s` may replace what `recorded` left behind. -/
def overrides (s : Source) : Option Source → Bool
  | none => true
  | some recorded => decide (recorded ≤ s)

/-- Whether `s` is stronger than what `recorded` left behind. -/
def overridesStrictly (s : Source) : Option Source → Bool
  | none => true
  | some recorded => decide (recorded < s)

/-- The stronger of a source and a recorded one. -/
def max (s : Source) : Option Source → Source
  | none => s
  | some recorded => if recorded ≤ s then s else recorded

theorem rank_injective {a b : Source} (h : a.rank = b.rank) : a = b := by
  cases a <;> cases b <;> simp_all [rank]

theorem le_iff {a b : Source} : a ≤ b ↔ a.rank ≤ b.rank := Iff.rfl

theorem lt_iff {a b : Source} : a < b ↔ a.rank < b.rank := Iff.rfl

theorem le_refl (a : Source) : a ≤ a := Nat.le_refl _

theorem le_trans {a b c : Source} : a ≤ b → b ≤ c → a ≤ c := Nat.le_trans

theorem le_antisymm {a b : Source} (h : a ≤ b) (k : b ≤ a) : a = b :=
  rank_injective (Nat.le_antisymm h k)

theorem lt_of_not_le {a b : Source} (h : ¬ a ≤ b) : b < a := Nat.lt_of_not_le h

/-- Nothing is stronger than an explicit source. -/
theorem le_explicit (a : Source) : a ≤ explicit := by cases a <;> decide

@[simp] theorem overrides_none (s : Source) : s.overrides none = true := rfl

@[simp] theorem overrides_some (s r : Source) : s.overrides (some r) = true ↔ r ≤ s := by
  simp [overrides]

/-- **Who may write.**  A source overrides exactly what is unset or not stronger than it. -/
theorem overrides_iff {s : Source} {r : Option Source} :
    s.overrides r = true ↔ ∀ t, r = some t → t ≤ s := by
  cases r <;> simp

@[simp] theorem max_none (s : Source) : s.max none = s := rfl

/-- The maximum is at least the writing source. -/
theorem le_max_left (s : Source) (r : Option Source) : s ≤ s.max r := by
  cases r with
  | none => exact le_refl s
  | some t =>
      by_cases h : t ≤ s
      · simp [max, h, le_refl]
      · rw [max, if_neg h]
        exact Nat.le_of_lt (lt_of_not_le h)

/-- The maximum is at least the recorded source. -/
theorem le_max_right (s t : Source) : t ≤ s.max (some t) := by
  by_cases h : t ≤ s <;> simp [max, h, le_refl]

/-- What is recorded after a write overrides what was there before. -/
theorem overrides_max (s : Source) (r : Option Source) : (s.max r).overrides r = true := by
  cases r with
  | none => rfl
  | some t => exact (overrides_some _ _).2 (le_max_right s t)

/-- **A stronger write leaves its own source behind.** -/
theorem max_of_overrides {s : Source} {r : Option Source} (h : s.overrides r = true) :
    s.max r = s := by
  cases r with
  | none => rfl
  | some t => simp [max, (overrides_some s t).1 h]

/-- A weaker write leaves the recorded source alone. -/
theorem max_of_not_overrides {s t : Source} (h : s.overrides (some t) = false) :
    s.max (some t) = t := by
  have : ¬ t ≤ s := by simpa [overrides] using h
  simp [max, this]

end Source

end ProcedureMapping
