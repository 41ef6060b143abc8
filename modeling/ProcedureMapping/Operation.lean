import ProcedureMapping.Error

/-!
# Store operations

The three operations that write an entity to its store, and the states of a tracked entity that
call for one of them.

Main statements:

* `parse_name` — every operation is read back from its own name;
* `ofState_eq_error` — a state that calls for no operation is refused under its own name.
-/

namespace ProcedureMapping

/-- An operation that a stored procedure carries out. -/
inductive Operation where
  | insert
  | update
  | delete
  deriving DecidableEq

/-- The state of an entity in change tracking. -/
inductive EntityState where
  | detached
  | unchanged
  | deleted
  | modified
  | added
  deriving DecidableEq

namespace EntityState

/-- All states. -/
def all : List EntityState := [detached, unchanged, deleted, modified, added]

/-- The name of a state. -/
def name : EntityState → String
  | detached => "Detached"
  | unchanged => "Unchanged"
  | deleted => "Deleted"
  | modified => "Modified"
  | added => "Added"

/-- The state that goes by the name `n`. -/
def ofName? (n : String) : Option EntityState := all.find? (·.name == n)

/-- Every state is found under its name. -/
@[simp] theorem ofName?_name (s : EntityState) : ofName? s.name = some s := by
  cases s <;> rfl

end EntityState

namespace Operation

/-- All operations, in their order. -/
def all : List Operation := [insert, update, delete]

/-- The position of an operation among all. -/
def index : Operation → Nat
  | insert => 0
  | update => 1
  | delete => 2

instance : Ord Operation := ⟨compareOn index⟩

instance : Std.TransOrd Operation := inferInstanceAs (Std.TransCmp (compareOn index))

instance : Std.LawfulEqOrd Operation where
  eq_of_compare {a b} h := by cases a <;> cases b <;> first | rfl | cases h

/-- The name of an operation. -/
def name : Operation → String
  | insert => "Insert"
  | update => "Update"
  | delete => "Delete"

/-- The operation that goes by exactly the name `n`. -/
def ofName? (n : String) : Option Operation := all.find? (·.name == n)

/-- The annotation name under which a relational model keeps the procedure of an operation. -/
def annotationName (op : Operation) : String := "Relational:" ++ op.name ++ "StoredProcedure"

/-- Read an operation from its name.  The case of ASCII letters does not matter. -/
def parse (text : String) : Except Error Operation :=
  match all.find? (fun op => op.name.toLower == text.toLower) with
  | some op => .ok op
  | none => .error (.unsupportedOperation text)

/-- The operation that brings an entity in state `s` to the store; the states that write nothing
have none. -/
def ofState (s : EntityState) : Except Error Operation :=
  match s with
  | .added => .ok insert
  | .modified => .ok update
  | .deleted => .ok delete
  | .detached | .unchanged => .error (.unsupportedOperation s.name)

/-- Every operation is found under its name. -/
@[simp] theorem ofName?_name (op : Operation) : ofName? op.name = some op := by
  cases op <;> rfl

/-- Every operation is read back from its own name. -/
@[simp] theorem parse_name (op : Operation) : parse op.name = .ok op := by
  have h : all.find? (fun candidate => candidate.name.toLower == op.name.toLower) = some op := by
    cases op <;> decide +kernel
  simp [parse, h]

/-- A state that calls for no operation is refused under its own name. -/
theorem ofState_eq_error {s : EntityState} {e : Error} (h : ofState s = .error e) :
    e = .unsupportedOperation s.name := by
  cases s <;> simp_all [ofState]

end Operation

end ProcedureMapping
