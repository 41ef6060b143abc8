import ProcedureMapping.Model.Hierarchy
import ProcedureMapping.Procedure.Negotiation

/-!
# Registering procedures

The registries of a model are the only place where its procedures come from and where they end.
Look-up checks the slot of the owner itself first and then, if the owner has a base type, the slot
of the root of its hierarchy; the types between are passed over.

* Explicit registration takes the owner's own slot.
* A convention takes whatever look-up finds, and makes a procedure for the owner only when there
  is none.
* Both raise the source of a procedure that is already there and keep what it has configured.
* Removal marks the procedure as removed; a convention removes only what it overrides.

Main statements:

* `ensureRegistrable_foreign` — a registry refuses the types of other models;
* `lookup?_declared` — what is declared on the owner itself is found first.
-/

namespace ProcedureMapping.Model

/-- The procedure declared on a type itself. -/
def declared? (m : Model) (r : RegistryId) (owner : EntityRef) (op : Operation) :
    Option ProcedureId :=
  if owner.model = m.id then (m.registry r).get? ⟨owner.id, op⟩ else none

/-- The procedure that serves a type, along the hierarchy that the model `h` knows. -/
def lookup? (m : Model) (r : RegistryId) (h : Model) (owner : EntityRef) (op : Operation) :
    Option ProcedureId :=
  if owner.model = m.id then
    match (m.registry r).get? ⟨owner.id, op⟩ with
    | some i => some i
    | none =>
        match h.base? owner with
        | some _ => (m.registry r).get? ⟨(h.root owner).id, op⟩
        | none => none
  else none

/-- The source of the procedure declared on a type itself. -/
def declaredSource? (m : Model) (r : RegistryId) (owner : EntityRef) (op : Operation) :
    Option Source :=
  ((m.declared? r owner op).bind (m.procedures[·]?)).map Procedure.source

/-- The procedures declared on a type itself, in the order of the operations. -/
def declaredFor (m : Model) (r : RegistryId) (owner : EntityRef) : List ProcedureId :=
  Operation.all.filterMap (m.declared? r owner)

/-- All procedures of a registry, by owner and operation. -/
def registered (m : Model) (r : RegistryId) : List ProcedureId :=
  (m.registry r).toList.map Prod.snd

/-- Refuse the types of other models, and every type once the model is read-only. -/
def ensureRegistrable (m : Model) (owner : EntityRef) (op : Operation) : Except Error Unit :=
  if owner.model = m.id then
    m.settings.ensureWritable (owner.name ++ " " ++ op.name ++ " stored procedure")
  else .error (.unknownEntityType owner.name)

/-- Raise the source of a procedure. -/
def restamp (m : Model) (i : ProcedureId) (s : Source) : Except Error Model :=
  match m.procedures[i]? with
  | some p => (p.restamp m.settings s).map (m.setProcedure i)
  | none => .ok m

/-- Put a fresh procedure into a slot. -/
def create (m : Model) (r : RegistryId) (owner : EntityRef) (op : Operation) (s : Source) :
    ProcedureId × Model :=
  let (i, m) := m.addProcedure (.fresh owner op s)
  (i, m.setRegistry r ((m.registry r).insert ⟨owner.id, op⟩ i))

/-- The procedure found, with its source raised, or else a fresh one in the owner's own slot. -/
def reuseOrCreate (m : Model) (r : RegistryId) (found : Option ProcedureId) (owner : EntityRef)
    (op : Operation) (s : Source) : Except Error (ProcedureId × Model) :=
  match found with
  | some i => (m.restamp i s).map fun m => (i, m)
  | none => .ok (m.create r owner op s)

/-- Map an operation of a type to a procedure, explicitly. -/
def set (m : Model) (r : RegistryId) (owner : EntityRef) (op : Operation) :
    Except Error (ProcedureId × Model) := do
  m.ensureRegistrable owner op
  m.reuseOrCreate r (m.declared? r owner op) owner op .explicit

/-- Map an operation of a type to a procedure, by convention. -/
def setConvention (m : Model) (r : RegistryId) (h : Model) (owner : EntityRef) (op : Operation)
    (s : Source) : Except Error (ProcedureId × Model) := do
  m.ensureRegistrable owner op
  m.reuseOrCreate r (m.lookup? r h owner op) owner op s

/-- Empty a slot and mark its procedure as removed. -/
def vacate (m : Model) (r : RegistryId) (owner : EntityRef) (op : Operation) :
    Option ProcedureId × Model :=
  match m.declared? r owner op with
  | none => (none, m)
  | some i =>
      let m := m.setRegistry r ((m.registry r).erase ⟨owner.id, op⟩)
      match m.procedures[i]? with
      | some p => (some i, m.setProcedure i p.detach)
      | none => (some i, m)

/-- Remove the procedure declared on a type itself. -/
def remove (m : Model) (r : RegistryId) (owner : EntityRef) (op : Operation) :
    Except Error (Option ProcedureId × Model) := do
  m.ensureRegistrable owner op
  .ok (m.vacate r owner op)

/-- Remove the procedure declared on a type itself, unless its source is stronger than `s`. -/
def removeConvention (m : Model) (r : RegistryId) (owner : EntityRef) (op : Operation)
    (s : Source) : Except Error (Option ProcedureId × Model) := do
  m.ensureRegistrable owner op
  match m.declaredSource? r owner op with
  | none => .ok (none, m)
  | some recorded => .ok (if s.overrides (some recorded) then m.vacate r owner op else (none, m))

/-- A registry refuses the types of other models. -/
theorem ensureRegistrable_foreign {m : Model} {owner : EntityRef} (op : Operation)
    (h : owner.model ≠ m.id) :
    m.ensureRegistrable owner op = .error (.unknownEntityType owner.name) := by
  simp [ensureRegistrable, h]

/-- What is declared on the owner itself is found first. -/
theorem lookup?_declared {m : Model} {r : RegistryId} (h : Model) {owner : EntityRef}
    {op : Operation} {i : ProcedureId} (hi : m.declared? r owner op = some i) :
    m.lookup? r h owner op = some i := by
  unfold declared? at hi
  split at hi
  · rename_i hm
    simp [lookup?, hm, hi]
  · cases hi

end ProcedureMapping.Model
