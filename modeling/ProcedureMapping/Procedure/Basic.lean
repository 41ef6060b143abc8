import ProcedureMapping.EntityType
import ProcedureMapping.Model.Settings
import ProcedureMapping.Operation
import ProcedureMapping.Parameter

/-!
# Stored procedures

The record of one stored procedure: the entity type it belongs to, the operation it carries out,
and everything that has been configured about it.

The name that applies is the configured one, or else

    owner name ++ separator ++ operation;

the schema that applies is the configured one, or else the default schema of the model at that
moment.  A procedure is **writable** until it is removed or its model is finalized; a removed
procedure stays observable.

Parameters come from a bound signature only, so a procedure without one has none.

Main statements:

* `unconfigured_fresh` — nothing of a new procedure is configured;
* `retired_detach` — a procedure that its registry drops is removed and otherwise the same;
* `ensureWritable_eq_ok_iff` — being writable and passing the check are the same;
* `ensureWritable_removed` — removal is reported before finalization.
-/

namespace ProcedureMapping

/-- The configured mapping of one operation of one entity type to a stored procedure. -/
structure Procedure where
  owner : EntityRef
  operation : Operation
  name : Tracked (Option String)
  schema : Tracked (Option String)
  parameters : List Parameter
  signatureBound : Bool
  source : Source
  annotations : AnnotationStore
  removed : Bool
  unbound : signatureBound = false → parameters = []

namespace Procedure

/-- A procedure of which nothing is configured yet. -/
def fresh (owner : EntityRef) (operation : Operation) (source : Source) : Procedure where
  owner := owner
  operation := operation
  name := .unset none
  schema := .unset none
  parameters := []
  signatureBound := false
  source := source
  annotations := .empty
  removed := false
  unbound _ := rfl

variable (settings : ModelSettings) (p : Procedure)

/-- The name that applies when none is configured. -/
def defaultName : String :=
  p.owner.name ++ settings.config.nameSeparator ++ p.operation.name

/-- The name that applies. -/
def effectiveName : String := p.name.value.getD (p.defaultName settings)

/-- The schema that applies. -/
def effectiveSchema : Option String := p.schema.value <|> settings.defaultSchema.value

/-- The name that applies, with the schema in front if there is one. -/
def displayName : String :=
  match p.effectiveSchema settings with
  | some schema => schema ++ "." ++ p.effectiveName settings
  | none => p.effectiveName settings

/-- Whether the procedure may still be configured. -/
def isWritable : Bool := !p.removed && !settings.readOnly

/-- Refuse to configure a procedure that is removed or whose model is finalized. -/
def ensureWritable : Except Error Unit :=
  if p.removed then .error (.removedFromModel (p.displayName settings))
  else settings.ensureWritable (p.displayName settings)

/-- The parameter of a name. -/
def findParameter? (name : String) : Option Parameter := p.parameters.find? (·.name == name)

/-- The parameter of a name, of a procedure that may still be configured. -/
def requireParameter (name : String) : Except Error Parameter := do
  p.ensureWritable settings
  match p.findParameter? name with
  | some parameter => .ok parameter
  | none => .error (.invalidParameterName (p.displayName settings) name)

/-- The parameter of a name as a builder for it shows it, whether or not the procedure may still be
configured. -/
def parameterMetadata (name : String) : Except Error Parameter :=
  match p.findParameter? name with
  | some parameter => .ok parameter
  | none => .error (.invalidParameterName (p.displayName settings) name)

/-- The procedure with a source recorded that is at least `s`. -/
def raiseSource (s : Source) : Procedure := { p with source := s.max (some p.source) }

/-- The procedure as its registry leaves it behind. -/
def detach : Procedure := { p with removed := true }

/-- Whether nothing of a procedure is configured: there is no name, no schema, no signature, no
parameter and no annotation, but only the source of the call that has made it. -/
structure Unconfigured (owner : EntityRef) (operation : Operation) (s : Source) : Prop where
  owner : p.owner = owner
  operation : p.operation = operation
  name : p.name = ⟨none, none⟩
  schema : p.schema = ⟨none, none⟩
  parameters : p.parameters = []
  signatureBound : p.signatureBound = false
  source : p.source = s
  annotations : ∀ key, p.annotations.get? key = none
  removed : p.removed = false

/-- Whether `p'` is `p` with nothing changed but that it is removed. -/
structure Retired (p' : Procedure) : Prop where
  owner : p'.owner = p.owner
  operation : p'.operation = p.operation
  name : p'.name = p.name
  schema : p'.schema = p.schema
  parameters : p'.parameters = p.parameters
  signatureBound : p'.signatureBound = p.signatureBound
  source : p'.source = p.source
  annotations : p'.annotations = p.annotations
  removed : p'.removed = true

/-- Nothing of a new procedure is configured. -/
theorem unconfigured_fresh (owner : EntityRef) (operation : Operation) (s : Source) :
    (fresh owner operation s).Unconfigured owner operation s where
  owner := rfl
  operation := rfl
  name := rfl
  schema := rfl
  parameters := rfl
  signatureBound := rfl
  source := rfl
  annotations _ := rfl
  removed := rfl

/-- A procedure that its registry drops is removed and otherwise the same. -/
theorem retired_detach : p.Retired p.detach where
  owner := rfl
  operation := rfl
  name := rfl
  schema := rfl
  parameters := rfl
  signatureBound := rfl
  source := rfl
  annotations := rfl
  removed := rfl

variable {p} in
/-- A parameter that is found is one of the parameters, and it has the name. -/
theorem findParameter?_eq_some {name : String} {q : Parameter}
    (h : p.findParameter? name = some q) : q ∈ p.parameters ∧ q.name = name :=
  ⟨List.mem_of_find?_eq_some h, by simpa using List.find?_some h⟩

/-- Being writable and passing the check are the same. -/
theorem ensureWritable_eq_ok_iff :
    p.ensureWritable settings = .ok () ↔ p.isWritable settings = true := by
  cases hr : p.removed <;> cases hs : settings.readOnly <;>
    simp [ensureWritable, isWritable, ModelSettings.ensureWritable, hr, hs]

/-- Removal is reported before finalization. -/
theorem ensureWritable_removed (h : p.removed = true) :
    p.ensureWritable settings = .error (.removedFromModel (p.displayName settings)) := by
  simp [ensureWritable, h]

end Procedure

end ProcedureMapping
