import ProcedureMapping.EntityType
import ProcedureMapping.Operation
import ProcedureMapping.SortedMap

/-!
# Registries

A registry says which stored procedure serves which **slot**, the pair of an entity type and an
operation.  Slots are ordered by type, then by operation, and each holds at most one procedure.

Main statements:

* `compare_slot_eq_iff` — the order tells different slots apart;
* `compare_slot_lt_iff` — the order goes by the type first.
-/

namespace ProcedureMapping

/-- The position of a procedure among those of its model. -/
abbrev ProcedureId := Nat

/-- The position of a registry among those of its model. -/
abbrev RegistryId := Nat

/-- An operation of an entity type. -/
structure Slot where
  owner : TypeId
  operation : Operation
  deriving DecidableEq

namespace Slot

instance : Ord Slot := ⟨compareLex (compareOn owner) (compareOn operation)⟩

instance : Std.TransOrd Slot :=
  inferInstanceAs (Std.TransCmp (compareLex (compareOn owner) (compareOn operation)))

theorem compare_slot_eq_iff {a b : Slot} : compare a b = .eq ↔ a = b := by
  obtain ⟨i, x⟩ := a
  obtain ⟨j, y⟩ := b
  show compareLex (compareOn owner) (compareOn operation) _ _ = .eq ↔ _
  simp [compareLex, compareOn, Ordering.then_eq_eq]

instance : Std.LawfulEqOrd Slot where
  eq_of_compare := compare_slot_eq_iff.1

/-- Whether a slot comes before another: its type does, or the two have one type and its operation
does. -/
def Before (a b : Slot) : Prop :=
  a.owner < b.owner ∨ a.owner = b.owner ∧ a.operation.index < b.operation.index

theorem compare_slot_lt_iff {a b : Slot} : compare a b = .lt ↔ a.Before b := by
  obtain ⟨i, x⟩ := a
  obtain ⟨j, y⟩ := b
  show compareLex (compareOn owner) (compareOn operation) _ _ = .lt ↔ _
  have hop : compare x y = .lt ↔ x.index < y.index := Nat.compare_eq_lt
  simp [compareLex, compareOn, Ordering.then_eq_lt, Nat.compare_eq_lt, Before, hop]

end Slot

/-- Which procedure serves which slot. -/
abbrev Registry := SortedMap Slot ProcedureId

end ProcedureMapping
