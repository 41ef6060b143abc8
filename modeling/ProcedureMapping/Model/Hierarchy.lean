import ProcedureMapping.Model.Basic

/-!
# The type hierarchy

Every entity type has at most one base type, registered before it, so ids fall along the chain of
bases and each chain ends at a root.  A reference to a type of another model has no base here and
is its own root.

Main statement: `base?_foreign` — a model says nothing about the types of another.
-/

namespace ProcedureMapping.Model

/-- The base type of a type. -/
def base? (m : Model) (t : EntityRef) : Option EntityRef :=
  ((m.entry? t).bind EntityType.base).bind m.ref?

/-- The last type on the chain of bases that starts at `t`, followed for at most `steps` steps. -/
def climb (m : Model) : Nat → EntityRef → EntityRef
  | 0, t => t
  | steps + 1, t =>
      match m.base? t with
      | some base => m.climb steps base
      | none => t

/-- The root of the hierarchy that a type belongs to.  As ids fall along the chain of bases, it has
at most as many steps as the id says. -/
def root (m : Model) (t : EntityRef) : EntityRef := m.climb t.id t

/-- The types that have the type of this id as their base, in the order of their registration. -/
def derived (m : Model) (t : EntityRef) : List EntityRef :=
  (List.range m.types.length).filterMap fun i =>
    match m.types[i]? with
    | some entry => if entry.base = some t.id then m.ref? i else none
    | none => none

/-- A model says nothing about the types of another. -/
theorem base?_foreign {m : Model} {t : EntityRef} (h : t.model ≠ m.id) : m.base? t = none := by
  simp [base?, entry?, h]

end ProcedureMapping.Model
