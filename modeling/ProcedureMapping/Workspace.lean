import ProcedureMapping.Model.Registration
import ProcedureMapping.Procedure.Statement

/-!
# Workspaces

A workspace holds the models that exist side by side.  Everything that changes one is a
`Command`, and a command touches one model only: the one it names, or the one that the procedure or
registry it names belongs to.

`execute` answers `none` when a command names something that the workspace does not hold;
otherwise it gives the outcome and the workspace afterwards.  A failing command leaves the
workspace as it was, but for `setUsing`, which keeps what its statements did before one of them
failed.
-/

namespace ProcedureMapping

/-- A reference to a procedure. -/
structure ProcedureRef where
  model : ModelId
  id : ProcedureId
  deriving DecidableEq

/-- A reference to a registry. -/
structure RegistryRef where
  model : ModelId
  id : RegistryId
  deriving DecidableEq

/-- A change to a workspace. -/
inductive Command where
  /-- Make a model. -/
  | createModel (config : Config)
  /-- Register an entity type. -/
  | addType (model : ModelId) (name : String) (base : Option EntityRef)
  /-- Annotate an entity type. -/
  | annotate (model : ModelId) (type : EntityRef) (name : String) (value : Json.Value)
      (source : Source)
  /-- Remove an annotation of an entity type. -/
  | unannotate (model : ModelId) (type : EntityRef) (name : String) (source : Source)
  /-- Change the default schema of a model. -/
  | setDefaultSchema (model : ModelId) (schema : Option String) (source : Source)
  /-- End the build phase of a model. -/
  | finalize (model : ModelId)
  /-- Make a registry for a model. -/
  | createRegistry (model : ModelId)
  /-- Map an operation of a type to a procedure. -/
  | set (registry : RegistryRef) (owner : EntityRef) (operation : Operation)
  /-- Map an operation of a type to a procedure and configure it. -/
  | setUsing (registry : RegistryRef) (owner : EntityRef) (operation : Operation)
      (statements : List Procedure.Statement)
  /-- Map an operation of a type to a procedure by convention, along the hierarchy of a model. -/
  | setConvention (registry : RegistryRef) (hierarchy : ModelId) (owner : EntityRef)
      (operation : Operation) (byAttribute : Bool)
  /-- Remove the procedure of a slot. -/
  | remove (registry : RegistryRef) (owner : EntityRef) (operation : Operation)
  /-- Remove the procedure of a slot by convention. -/
  | removeConvention (registry : RegistryRef) (owner : EntityRef) (operation : Operation)
      (byAttribute : Bool)
  /-- Configure a procedure explicitly. -/
  | configure (procedure : ProcedureRef) (statement : Procedure.Statement)
  /-- Configure a procedure by convention. -/
  | suggest (procedure : ProcedureRef) (write : Procedure.Write) (byAttribute : Bool)
  /-- Bind the parameters of a procedure by convention. -/
  | suggestSignature (procedure : ProcedureRef) (signature : Signature)
      (byAttribute : Bool)
  /-- Write to a procedure at any source. -/
  | write (procedure : ProcedureRef) (write : Procedure.Write) (source : Source)
  /-- Bind the parameters of a procedure at any source. -/
  | bindSignature (procedure : ProcedureRef) (signature : Signature) (source : Source)
  /-- Raise the source of a procedure. -/
  | restamp (procedure : ProcedureRef) (source : Source)
  /-- Make a procedure outside every registry. -/
  | createProcedure (owner : EntityRef) (operation : Operation) (source : Source)
  /-- Mark a procedure as removed, whether a registry holds it or not. -/
  | detach (procedure : ProcedureRef)

/-- Whether a command is open to users and conventions.  The others write at any source or go
around the registries. -/
def Command.isPublic : Command → Bool
  | write .. | bindSignature .. | restamp .. | createProcedure .. | detach .. => false
  | _ => true

/-- What a command that did not fail has done. -/
inductive Outcome where
  | done
  /-- A negotiated write applied, or backed off. -/
  | applied (accepted : Bool)
  | model (id : ModelId)
  | type (ref : EntityRef)
  | registry (ref : RegistryRef)
  /-- A procedure, where there is one. -/
  | procedure (ref : Option ProcedureRef)

/-- The models that exist side by side. -/
structure Workspace where
  models : List Model

namespace Workspace

/-- The workspace without models. -/
def empty : Workspace := ⟨[]⟩

/-- The model of an id. -/
def model? (w : Workspace) (i : ModelId) : Option Model := w.models[i]?

/-- The model that a procedure belongs to, and its record. -/
def procedure? (w : Workspace) (ref : ProcedureRef) : Option (Model × Procedure) :=
  match w.model? ref.model with
  | some m => m.procedures[ref.id]?.map fun p => (m, p)
  | none => none

/-- The workspace with another state of a model. -/
def setModel (w : Workspace) (i : ModelId) (m : Model) : Workspace := ⟨w.models.set i m⟩

/-- What a command gives: the workspace afterwards, and an outcome or an error. -/
abbrev Result := Workspace × Except Error Outcome

/-- Change one model; a failing change leaves it as it was. -/
def changeModel (w : Workspace) (i : ModelId) (change : Model → Except Error (Outcome × Model)) :
    Option Result :=
  match w.model? i with
  | none => none
  | some m =>
      match change m with
      | .ok (outcome, m) => some (w.setModel i m, .ok outcome)
      | .error e => some (w, .error e)

/-- Change one model through one of its registries. -/
def changeRegistry (w : Workspace) (ref : RegistryRef)
    (change : Model → Except Error (Option ProcedureId × Model)) : Option Result :=
  w.changeModel ref.model fun m => do
    let (found, m) ← change m
    .ok (.procedure (found.map fun i => ⟨ref.model, i⟩), m)

/-- Change one procedure; a change that gives none backs off. -/
def changeProcedure (w : Workspace) (ref : ProcedureRef)
    (change : ModelSettings → Procedure → Except Error (Outcome × Procedure)) : Option Result :=
  match w.procedure? ref with
  | none => none
  | some (m, p) =>
      match change m.settings p with
      | .ok (outcome, p) => some (w.setModel ref.model (m.setProcedure ref.id p), .ok outcome)
      | .error e => some (w, .error e)

/-- The outcome of a negotiated write. -/
def negotiated (p : Procedure) : Option Procedure → Outcome × Procedure
  | some p => (.applied true, p)
  | none => (.applied false, p)

/-- Configure a procedure by statements in order, up to the first that fails. -/
def configureAll (w : Workspace) (ref : ProcedureRef) :
    List Procedure.Statement → Workspace × Except Error Outcome
  | [] => (w, .ok (.procedure (some ref)))
  | statement :: rest =>
      match w.changeProcedure ref fun settings p =>
          (p.configure settings statement).map fun p => (.done, p) with
      | some (w, .ok _) => w.configureAll ref rest
      | some (w, .error e) => (w, .error e)
      | none => (w, .ok (.procedure none))

/-- Map an operation of a type to a procedure. -/
def set (w : Workspace) (ref : RegistryRef) (owner : EntityRef) (op : Operation) :
    Option Result :=
  w.changeRegistry ref fun m => (m.set ref.id owner op).map fun (i, m) => (some i, m)

/-- Carry out a command. -/
def execute (w : Workspace) : Command → Option Result
  | .createModel config =>
      some (⟨w.models ++ [.new w.models.length config]⟩, .ok (.model w.models.length))
  | .addType i name base =>
      w.changeModel i fun m => (m.addType name base).map fun (t, m) => (.type t, m)
  | .annotate i t name value s =>
      w.changeModel i fun m => (m.annotate t name value s).map fun (b, m) => (.applied b, m)
  | .unannotate i t name s =>
      w.changeModel i fun m => (m.unannotate t name s).map fun (b, m) => (.applied b, m)
  | .setDefaultSchema i schema s =>
      w.changeModel i fun m => (m.setDefaultSchema schema s).map fun (b, m) => (.applied b, m)
  | .finalize i => w.changeModel i fun m => .ok (.done, m.finalize)
  | .createRegistry i =>
      w.changeModel i fun m => .ok (.registry ⟨i, m.addRegistry.1⟩, m.addRegistry.2)
  | .set ref owner op => w.set ref owner op
  | .setUsing ref owner op statements =>
      match w.set ref owner op with
      | some (w, .ok (.procedure (some p))) => some (w.configureAll p statements)
      | result => result
  | .setConvention ref h owner op byAttribute =>
      match w.model? h with
      | none => none
      | some h =>
          w.changeRegistry ref fun m =>
            (m.setConvention ref.id h owner op (.ofConvention byAttribute)).map
              fun (i, m) => (some i, m)
  | .remove ref owner op => w.changeRegistry ref fun m => m.remove ref.id owner op
  | .removeConvention ref owner op byAttribute =>
      w.changeRegistry ref fun m =>
        m.removeConvention ref.id owner op (.ofConvention byAttribute)
  | .configure ref statement =>
      w.changeProcedure ref fun settings p =>
        (p.configure settings statement).map fun p => (.done, p)
  | .suggest ref write byAttribute =>
      w.changeProcedure ref fun settings p =>
        (p.write settings write (.ofConvention byAttribute)).map (negotiated p)
  | .suggestSignature ref signature byAttribute =>
      w.changeProcedure ref fun settings p =>
        (p.bindSignature settings signature (.ofConvention byAttribute)).map
          fun p => (.done, p)
  | .write ref write s =>
      w.changeProcedure ref fun settings p => (p.write settings write s).map (negotiated p)
  | .bindSignature ref signature s =>
      w.changeProcedure ref fun settings p =>
        (p.bindSignature settings signature s).map fun p => (.done, p)
  | .restamp ref s =>
      w.changeProcedure ref fun settings p => (p.restamp settings s).map fun p => (.done, p)
  | .createProcedure owner op s =>
      w.changeModel owner.model fun m =>
        let (i, m) := m.addProcedure (.fresh owner op s)
        .ok (.procedure (some ⟨owner.model, i⟩), m)
  | .detach ref => w.changeProcedure ref fun _ p => .ok (.done, p.detach)

end Workspace

end ProcedureMapping
