import ProcedureMapping.Procedure.Basic
import ProcedureMapping.Signature
import ProcedureMapping.Text.Blank

/-!
# Negotiated writes

Every change of a configured attribute of a procedure is a `Procedure.Write` at a source.  Whether
it is **accepted** depends on what is recorded for the attribute:

* a name, when the source overrides the recorded one, or the name repeats the configured or the
  applying name — but a blank name only from an explicit source;
* a schema, when the source overrides the recorded one, or the schema repeats the applying one;
* everything else by the rule of its tracked value or annotation store.

A write on a procedure that is no longer writable is an error, and so is one to a parameter that
is not declared; a write that is not accepted **backs off** and leaves everything as it is.

The parameter list itself is not negotiated: it is bound once, from a signature without repeated
names, which are declared one after the other.

Main statements:

* `write_isSome_iff` — a write applies exactly when `can` says so;
* `write_eq_error_iff` — a write fails exactly on a procedure that is not writable or lacks the
  parameter;
* `parameters_bound` — the parameters that are bound are those of the signature, in its order.
-/

namespace ProcedureMapping.Procedure

/-- A change to one attribute of a procedure. -/
inductive Write where
  | name (value : Option String)
  | schema (value : Option String)
  | annotate (name : String) (value : Json.Value)
  | unannotate (name : String)
  | parameter (name : String) (write : Parameter.Write)

variable (settings : ModelSettings) (p : Procedure)

/-- Whether a name is accepted at source `s`. -/
def acceptsName (value : Option String) (s : Source) : Bool :=
  !(value.any Text.isBlank && s != .explicit) &&
    (s.overrides p.name.source || p.name.value == value
      || value == some (p.effectiveName settings))

/-- Whether a schema is accepted at source `s`. -/
def acceptsSchema (value : Option String) (s : Source) : Bool :=
  s.overrides p.schema.source || p.effectiveSchema settings == value

/-- Whether a write at source `s` is accepted. -/
def accepts (w : Write) (s : Source) : Bool :=
  match w with
  | .name value => p.acceptsName settings value s
  | .schema value => p.acceptsSchema settings value s
  | .annotate name value => p.annotations.accepts name value s
  | .unannotate name => p.annotations.releases name s
  | .parameter name w => (p.findParameter? name).any fun parameter => parameter.accepts w s

/-- The procedure with the parameter of a name changed. -/
def modifyParameter (name : String) (f : Parameter → Parameter) : Procedure :=
  { p with
    parameters := p.parameters.map fun q => if q.name = name then f q else q
    unbound := by
      intro hfree
      rw [p.unbound hfree, List.map_nil] }

/-- Record a write without asking. -/
def record (w : Write) (s : Source) : Procedure :=
  match w with
  | .name value => { p with name := p.name.set value s }
  | .schema value => { p with schema := p.schema.set value s }
  | .annotate name value => { p with annotations := p.annotations.put name value s }
  | .unannotate name => { p with annotations := p.annotations.discard name }
  | .parameter name w => p.modifyParameter name fun parameter => parameter.record w s

/-- Whether a write would apply. -/
def can (w : Write) (s : Source) : Bool := p.isWritable settings && p.accepts settings w s

/-- Refuse a write to a parameter that is not declared. -/
def ensureDeclared (w : Write) : Except Error Unit :=
  match w with
  | .parameter name _ =>
      if (p.findParameter? name).isSome then .ok ()
      else .error (.invalidParameterName (p.displayName settings) name)
  | _ => .ok ()

/-- Write at source `s`: the changed procedure, or `none` when the write backs off. -/
def write (w : Write) (s : Source) : Except Error (Option Procedure) := do
  p.ensureWritable settings
  p.ensureDeclared settings w
  .ok (if p.accepts settings w s then some (p.record w s) else none)

/-- Refuse a second signature. -/
def ensureUnbound : Except Error Unit :=
  if p.signatureBound then .error (.signatureAlreadyBound (p.displayName settings)) else .ok ()

/-- The procedure with the parameters of a signature declared at source `s`, in signature order. -/
def bound (signature : Signature) (s : Source) : Procedure :=
  { p with
    parameters := Parameter.declareAll p.parameters signature.parameters s
    signatureBound := true
    unbound := nofun }

/-- Bind the parameter list at source `s`. -/
def bindSignature (signature : Signature) (s : Source) : Except Error Procedure := do
  p.ensureWritable settings
  p.ensureUnbound settings
  signature.checkUnique (p.displayName settings)
  .ok (p.bound signature s)

/-- Raise the source of the procedure as a whole to at least `s`. -/
def restamp (s : Source) : Except Error Procedure := do
  p.ensureWritable settings
  .ok (p.raiseSource s)

/-- A write applies exactly when `can` says so. -/
theorem write_isSome_iff (w : Write) (s : Source) :
    (∃ q, p.write settings w s = .ok (some q)) ↔ p.can settings w s = true := by
  cases hw : p.isWritable settings with
  | false =>
      have : ¬ p.ensureWritable settings = .ok () := by simp [ensureWritable_eq_ok_iff, hw]
      cases he : p.ensureWritable settings with
      | ok u => exact absurd he this
      | error e => simp [write, he, can, hw, bind, Except.bind]
  | true =>
      have he : p.ensureWritable settings = .ok () := (ensureWritable_eq_ok_iff _ _).2 hw
      cases w with
      | parameter name w =>
          cases hf : p.findParameter? name <;>
            simp [write, he, can, hw, ensureDeclared, hf, bind, Except.bind, accepts]
      | _ => simp [write, he, can, hw, ensureDeclared, bind, Except.bind]

/-- A write fails exactly on a procedure that is not writable or lacks the parameter. -/
theorem write_eq_error_iff (w : Write) (s : Source) :
    (∃ e, p.write settings w s = .error e) ↔
      p.isWritable settings = false ∨
        ∃ name v, w = .parameter name v ∧ p.findParameter? name = none := by
  cases hw : p.isWritable settings with
  | false =>
      cases he : p.ensureWritable settings with
      | ok u => simp [(ensureWritable_eq_ok_iff settings p).1 he] at hw
      | error e => simp [write, he, bind, Except.bind]
  | true =>
      have he : p.ensureWritable settings = .ok () := (ensureWritable_eq_ok_iff _ _).2 hw
      cases w with
      | parameter name w =>
          cases hf : p.findParameter? name <;>
            simp [write, he, ensureDeclared, hf, bind, Except.bind]
      | _ => simp [write, he, ensureDeclared, bind, Except.bind]

variable {p} in
/-- **The parameters that are bound** are those of the signature, in its order: before there were
none, and no name repeats. -/
theorem parameters_bound {signature : Signature} (hfree : p.signatureBound = false)
    (hunique : signature.parameters.Nodup) (s : Source) :
    (p.bound signature s).parameters = signature.parameters.map (Parameter.declared · s) := by
  have hnone : p.parameters = [] := p.unbound hfree
  have hnames : (p.parameters.map Parameter.name ++ signature.parameters).Nodup := by
    rw [hnone]
    exact hunique
  calc (p.bound signature s).parameters
      = Parameter.declareAll p.parameters signature.parameters s := rfl
    _ = p.parameters ++ signature.parameters.map (Parameter.declared · s) :=
      Parameter.declareAll_eq hnames s
    _ = signature.parameters.map (Parameter.declared · s) := by rw [hnone, List.nil_append]

end ProcedureMapping.Procedure
