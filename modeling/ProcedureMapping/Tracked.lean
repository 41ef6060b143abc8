import ProcedureMapping.Source

/-!
# Tracked values

A **tracked value** is a value together with the source that configured it, if any did.  A write
at source `s` is accepted when `s` overrides the recorded source or when it only repeats the
value that is already there; after an accepted write the record holds the written value and the
stronger of the two sources.  So the recorded source only moves upward, and a weaker source
never displaces a value.

Main statements:

* `write?_source` — an accepted write records the maximum;
* `write?_eq_none_iff` — a write backs off exactly when it is weaker and brings another value.
-/

namespace ProcedureMapping

/-- A value and the source that configured it. -/
structure Tracked (α : Type) where
  value : α
  source : Option Source
  deriving DecidableEq

namespace Tracked

variable {α : Type}

/-- A value nobody has configured yet. -/
def unset (a : α) : Tracked α := ⟨a, none⟩

/-- A value configured from the start. -/
def configured (a : α) (s : Source) : Tracked α := ⟨a, some s⟩

/-- Whether some source has configured the value. -/
def isConfigured (t : Tracked α) : Bool := t.source.isSome

/-- Record `a` at source `s` without asking.  The recorded source never goes down. -/
def set (t : Tracked α) (a : α) (s : Source) : Tracked α := ⟨a, some (s.max t.source)⟩

/-- Whether a write of `a` at source `s` is accepted. -/
def accepts [BEq α] (t : Tracked α) (a : α) (s : Source) : Bool :=
  s.overrides t.source || t.value == a

/-- Write `a` at source `s`; `none` when the write backs off. -/
def write? [BEq α] (t : Tracked α) (a : α) (s : Source) : Option (Tracked α) :=
  if t.accepts a s then some (t.set a s) else none

@[simp] theorem set_value (t : Tracked α) (a : α) (s : Source) : (t.set a s).value = a := rfl

@[simp] theorem set_source (t : Tracked α) (a : α) (s : Source) :
    (t.set a s).source = some (s.max t.source) := rfl

section Write

variable [BEq α]

theorem write?_isSome (t : Tracked α) (a : α) (s : Source) :
    (t.write? a s).isSome = t.accepts a s := by
  by_cases h : t.accepts a s = true <;> simp [write?, h]

/-- **An accepted write records the maximum** of the old and the writing source. -/
theorem write?_source {t t' : Tracked α} {a : α} {s : Source} (h : t.write? a s = some t') :
    t'.value = a ∧ t'.source = some (s.max t.source) := by
  by_cases k : t.accepts a s = true <;> simp [write?, k] at h
  subst h
  exact ⟨rfl, rfl⟩

/-- **A write backs off** exactly when it is weaker than the record and brings another value. -/
theorem write?_eq_none_iff {t : Tracked α} {a : α} {s : Source} :
    t.write? a s = none ↔ s.overrides t.source = false ∧ (t.value == a) = false := by
  simp [write?, accepts]

end Write

end Tracked

end ProcedureMapping
