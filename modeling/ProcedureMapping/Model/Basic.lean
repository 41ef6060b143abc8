import ProcedureMapping.Procedure.Basic
import ProcedureMapping.Registry
import ProcedureMapping.Text.Blank

/-!
# Models

A model holds the entity types of one model-building session in the order of their registration,
and with them the stored procedures and registries that belong to it.  It accepts writes until it
is finalized.

A new entity type needs a name that is not blank, not too long and not taken, a base type, if any,
that is registered already, and an id that fits in 32 bits.

Main statements:

* `completed_finalize` — finalizing a model ends its build phase and changes nothing else;
* `ref?_eq_some_iff` — which references a model hands out;
* `addType_eq_ok` — what registering a type hands out and changes.
-/

namespace ProcedureMapping

/-- The entity types of one model-building session, with their procedures and registries. -/
structure Model where
  id : ModelId
  settings : ModelSettings
  types : List EntityType
  procedures : List Procedure
  registries : List Registry

namespace Model

/-- A model without entity types. -/
def new (id : ModelId) (config : Config) : Model := ⟨id, .ofConfig config, [], [], []⟩

/-! ## Looking up entity types -/

/-- The reference to the type of an id. -/
def ref? (m : Model) (i : TypeId) : Option EntityRef :=
  m.types[i]?.map fun entry => ⟨m.id, i, entry.name⟩

/-- The type that a reference is to, if it belongs to this model. -/
def entry? (m : Model) (t : EntityRef) : Option EntityType :=
  if t.model = m.id then m.types[t.id]? else none

/-- Whether a reference is to a type of this model. -/
def contains (m : Model) (t : EntityRef) : Bool := (m.entry? t).isSome

/-- The reference to the type of a name. -/
def find? (m : Model) (name : String) : Option EntityRef :=
  (m.types.findIdx? (·.name == name)).bind m.ref?

/-- The names of all types, in the order of their registration. -/
def typeNames (m : Model) : List String := m.types.map EntityType.name

/-! ## Building -/

/-- Refuse a blank name for a type. -/
def ensureNamed (name : String) : Except Error Unit :=
  if Text.isBlank name then .error (.invalidIdentifier name .emptyTypeName) else .ok ()

/-- Refuse a name that is taken. -/
def ensureFresh (m : Model) (name : String) : Except Error Unit :=
  if m.types.any (·.name == name) then .error (.duplicateEntityType name) else .ok ()

/-- The id of a base type, which has to belong to this model. -/
def baseId (m : Model) : Option EntityRef → Except Error (Option TypeId)
  | none => .ok none
  | some base =>
      if m.contains base then .ok (some base.id) else .error (.unknownEntityType base.name)

/-- The id of the next type: how many there are, as long as that fits in 32 bits. -/
def nextId (m : Model) : Except Error TypeId :=
  if m.types.length < UInt32.size then .ok m.types.length
  else .error (.invalidConfiguration .tooManyEntityTypes)

/-- Register an entity type. -/
def addType (m : Model) (name : String) (base : Option EntityRef) :
    Except Error (EntityRef × Model) := do
  m.settings.ensureWritable name
  ensureNamed name
  m.settings.config.validateIdentifier name
  m.ensureFresh name
  let base ← m.baseId base
  let id ← m.nextId
  .ok (⟨m.id, id, name⟩, { m with types := m.types ++ [⟨name, base, .empty⟩] })

/-- The type that a write is about, which has to belong to this model, while it is writable. -/
def requireEntry (m : Model) (t : EntityRef) : Except Error EntityType := do
  m.settings.ensureWritable t.name
  match m.entry? t with
  | some entry => .ok entry
  | none => .error (.unknownEntityType t.name)

/-- The model with other annotations on a type. -/
def setAnnotations (m : Model) (i : TypeId) (entry : EntityType) (annotations : AnnotationStore) :
    Model :=
  { m with types := m.types.set i { entry with annotations := annotations } }

/-- Annotate a type; `false` when the write backs off. -/
def annotate (m : Model) (t : EntityRef) (name : String) (value : Json.Value) (s : Source) :
    Except Error (Bool × Model) := do
  let entry ← m.requireEntry t
  match entry.annotations.write? name value s with
  | some annotations => .ok (true, m.setAnnotations t.id entry annotations)
  | none => .ok (false, m)

/-- Remove an annotation of a type; `false` when there is none or the removal backs off. -/
def unannotate (m : Model) (t : EntityRef) (name : String) (s : Source) :
    Except Error (Bool × Model) := do
  let entry ← m.requireEntry t
  match entry.annotations.removed? name s with
  | some _ => .ok (true, m.setAnnotations t.id entry (entry.annotations.discard name))
  | none => .ok (false, m)

/-- Change the default schema; `false` when the write backs off. -/
def setDefaultSchema (m : Model) (schema : Option String) (s : Source) :
    Except Error (Bool × Model) := do
  m.settings.ensureWritable "model default schema"
  match m.settings.defaultSchema.write? schema s with
  | some written => .ok (true, { m with settings := { m.settings with defaultSchema := written } })
  | none => .ok (false, m)

/-- End the build phase. -/
def finalize (m : Model) : Model := { m with settings := { m.settings with readOnly := true } }

/-- Whether `m'` is `m` with nothing changed but that its build phase has ended. -/
structure Completed (m m' : Model) : Prop where
  id : m'.id = m.id
  config : m'.settings.config = m.settings.config
  defaultSchema : m'.settings.defaultSchema = m.settings.defaultSchema
  readOnly : m'.settings.readOnly = true
  types : m'.types = m.types
  procedures : m'.procedures = m.procedures
  registries : m'.registries = m.registries

/-! ## Procedures and registries of a model -/

/-- The model with one more procedure, which gets the next id. -/
def addProcedure (m : Model) (p : Procedure) : ProcedureId × Model :=
  (m.procedures.length, { m with procedures := m.procedures ++ [p] })

/-- The model with another record for a procedure. -/
def setProcedure (m : Model) (i : ProcedureId) (p : Procedure) : Model :=
  { m with procedures := m.procedures.set i p }

/-- The model with one more registry, which gets the next id. -/
def addRegistry (m : Model) : RegistryId × Model :=
  (m.registries.length, { m with registries := m.registries ++ [.empty] })

/-- The slots of a registry. -/
def registry (m : Model) (r : RegistryId) : Registry := m.registries[r]?.getD .empty

/-- The model with other slots for a registry. -/
def setRegistry (m : Model) (r : RegistryId) (slots : Registry) : Model :=
  { m with registries := m.registries.set r slots }

/-- Finalizing a model ends its build phase and changes nothing else. -/
theorem completed_finalize (m : Model) : m.Completed m.finalize where
  id := rfl
  config := rfl
  defaultSchema := rfl
  readOnly := rfl
  types := rfl
  procedures := rfl
  registries := rfl

/-- Which references a model hands out. -/
theorem ref?_eq_some_iff {m : Model} {i : TypeId} {t : EntityRef} :
    m.ref? i = some t ↔ ∃ entry, m.types[i]? = some entry ∧ ⟨m.id, i, entry.name⟩ = t := by
  simp [ref?]

/-- The next id is the number of types, and there is one while that fits in 32 bits. -/
theorem nextId_eq_ok_iff {m : Model} {i : TypeId} :
    m.nextId = .ok i ↔ i = m.types.length ∧ m.types.length < UInt32.size := by
  unfold nextId
  split
  · next hfits => simp [hfits, eq_comm]
  · next hfull => simp [hfull]

/-- What registering a type hands out and changes: the next id, and one more type at the end. -/
theorem addType_eq_ok {m m' : Model} {name : String} {base : Option EntityRef} {t : EntityRef}
    (h : m.addType name base = .ok (t, m')) :
    t = ⟨m.id, m.types.length, name⟩ ∧
      ∃ b, m.baseId base = .ok b ∧ m' = { m with types := m.types ++ [⟨name, b, .empty⟩] } := by
  cases hw : m.settings.ensureWritable name with
  | error e => simp [addType, hw, bind, Except.bind] at h
  | ok _ =>
  cases hn : ensureNamed name with
  | error e => simp [addType, hw, hn, bind, Except.bind] at h
  | ok _ =>
  cases hv : m.settings.config.validateIdentifier name with
  | error e => simp [addType, hw, hn, hv, bind, Except.bind] at h
  | ok _ =>
  cases hf : m.ensureFresh name with
  | error e => simp [addType, hw, hn, hv, hf, bind, Except.bind] at h
  | ok _ =>
  cases hb : m.baseId base with
  | error e => simp [addType, hw, hn, hv, hf, hb, bind, Except.bind] at h
  | ok b =>
  cases hi : m.nextId with
  | error e => simp [addType, hw, hn, hv, hf, hb, hi, bind, Except.bind] at h
  | ok i =>
      simp only [addType, hw, hn, hv, hf, hb, hi, bind, Except.bind, Except.ok.injEq,
        Prod.mk.injEq] at h
      obtain ⟨rfl, _⟩ := nextId_eq_ok_iff.1 hi
      exact ⟨h.1.symm, b, rfl, h.2.symm⟩

end Model

end ProcedureMapping
