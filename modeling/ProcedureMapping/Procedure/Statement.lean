import ProcedureMapping.Procedure.Negotiation

/-!
# Explicit statements

What user code says about a procedure.  A statement is written at the explicit source, which
overrides everything, so it cannot lose a negotiation; it can only be refused, because the
procedure is no longer writable, because an identifier is too long, because a signature cannot be
bound or because a parameter is not declared.

Main statement: `accepts_explicit` — an explicit write is always accepted, where its parameter is
declared.
-/

namespace ProcedureMapping.Procedure

/-- A statement about a procedure. -/
inductive Statement where
  | name (value : String)
  | defaultName
  | schema (value : Option String)
  | signature (signature : Signature)
  | annotate (name : String) (value : Json.Value)
  | unannotate (name : String)
  | parameter (name : String) (write : Parameter.Write)
  /-- Select a parameter, which has to be declared, without a change. -/
  | select (name : String)

variable (settings : ModelSettings) (p : Procedure)

/-- Refuse an identifier that is too long, once it is clear that the procedure is writable. -/
def ensureIdentifier (identifier : String) : Except Error Unit := do
  p.ensureWritable settings
  settings.config.validateIdentifier identifier

/-- Write at the explicit source. -/
def overwrite (w : Write) : Except Error Procedure := do
  let written ← p.write settings w .explicit
  .ok (written.getD p)

/-- Carry out a statement. -/
def configure (statement : Statement) : Except Error Procedure :=
  match statement with
  | .name value => do
      p.ensureIdentifier settings value
      p.overwrite settings (.name (some value))
  | .defaultName => p.overwrite settings (.name none)
  | .schema (some value) => do
      p.ensureIdentifier settings value
      p.overwrite settings (.schema (some value))
  | .schema none => p.overwrite settings (.schema none)
  | .signature signature => p.bindSignature settings signature .explicit
  | .annotate name value => p.overwrite settings (.annotate name value)
  | .unannotate name => p.overwrite settings (.unannotate name)
  | .parameter name w => p.overwrite settings (.parameter name w)
  | .select name => (p.requireParameter settings name).map fun _ => p

/-- An explicit source overrides whatever is recorded. -/
theorem overrides_explicit (r : Option Source) : Source.explicit.overrides r = true := by
  cases r with
  | none => rfl
  | some t => exact (Source.overrides_some _ _).2 (Source.le_explicit t)

/-- **Explicit writes are not negotiated away.** -/
theorem accepts_explicit (w : Write)
    (h : ∀ name v, w = .parameter name v → (p.findParameter? name).isSome) :
    p.accepts settings w .explicit = true := by
  cases w with
  | name value => simp [accepts, acceptsName, overrides_explicit]
  | schema value => simp [accepts, acceptsSchema, overrides_explicit]
  | annotate name value =>
      simp only [accepts, AnnotationStore.accepts]
      split <;> simp [overrides_explicit]
  | unannotate name =>
      simp only [accepts, AnnotationStore.releases]
      split <;> simp [overrides_explicit]
  | parameter name v =>
      obtain ⟨q, hq⟩ := Option.isSome_iff_exists.1 (h name v rfl)
      cases v with
      | annotate n a =>
          simp only [accepts, hq, Option.any_some, Parameter.accepts, AnnotationStore.accepts]
          split <;> simp [overrides_explicit]
      | _ => simp [accepts, hq, Parameter.accepts, Tracked.accepts, overrides_explicit]

end ProcedureMapping.Procedure
