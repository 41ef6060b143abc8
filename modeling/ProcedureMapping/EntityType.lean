import ProcedureMapping.AnnotationStore

/-!
# Entity types

An entity type is known to its model by its **id**, the position at which it was registered.  A
reference names the model and the id; the name of the type travels along for messages.  Two
references are to the same type when model and id agree.

Main statement: `same_iff` — sameness of references is equality of model and id.
-/

namespace ProcedureMapping

/-- The identity of a model. -/
abbrev ModelId := Nat

/-- The position of an entity type in its model. -/
abbrev TypeId := Nat

/-- A reference to an entity type. -/
structure EntityRef where
  model : ModelId
  id : TypeId
  name : String
  deriving DecidableEq

/-- An entity type as its model keeps it. -/
structure EntityType where
  name : String
  base : Option TypeId
  annotations : AnnotationStore

namespace EntityRef

/-- The text of an id. -/
def idText (t : EntityRef) : String := "#" ++ toString t.id

/-- Whether two references are to the same type. -/
def same (t u : EntityRef) : Bool := t.model == u.model && t.id == u.id

theorem same_iff {t u : EntityRef} : t.same u = true ↔ t.model = u.model ∧ t.id = u.id := by
  simp [same]

end EntityRef

end ProcedureMapping
