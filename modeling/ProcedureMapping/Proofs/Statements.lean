import ProcedureMapping.Proofs.Closed

/-!
# Statements

A statement about a procedure is refused for one of a few reasons, which are looked at in a fixed
order, or it is carried out.  There is no third case: it is written at the explicit source, so it
never loses to what is recorded.

Main statements:

* `Procedure.configure_open` — what becomes of a statement on a writable procedure;
* `Procedure.configure_eq` — what becomes of a statement.
-/

namespace ProcedureMapping

/-! ## What a statement is refused for -/

namespace Procedure

/-- What an identifier is refused for. -/
def tooLong? (config : Config) (text : String) : Option Error :=
  if config.maxIdentifierLength.toNat < text.length then
    some (.invalidIdentifier text (.tooLong config.maxIdentifierLength.toNat))
  else none

/-- What a parameter is refused for. -/
def undeclared? (settings : ModelSettings) (p : Procedure) (key : String) : Option Error :=
  if (p.findParameter? key).isSome then none
  else some (.invalidParameterName (p.displayName settings) key)

/-- What a statement is refused for while its procedure is writable: an identifier that is too long,
a parameter that is not declared, a second signature or a repeated parameter. -/
def objection? (settings : ModelSettings) (p : Procedure) : Statement → Option Error
  | .name text | .schema (some text) => tooLong? settings.config text
  | .parameter key _ | .select key => p.undeclared? settings key
  | .signature signature =>
      if p.signatureBound then some (.signatureAlreadyBound (p.displayName settings))
      else signature.firstDuplicate.map (.duplicateParameter (p.displayName settings))
  | .defaultName | .schema none | .annotate .. | .unannotate _ => none

/-- What a statement is refused for, in the order in which it is looked at: the procedure is
removed, its model is finalized, or there is an objection to the statement itself. -/
def refusal? (settings : ModelSettings) (p : Procedure) (statement : Statement) : Option Error :=
  if p.removed then some (.removedFromModel (p.displayName settings))
  else if settings.readOnly then some (.readOnlyModel (p.displayName settings))
  else p.objection? settings statement

/-- The procedure after a statement that is carried out. -/
def obey (p : Procedure) : Statement → Procedure
  | .name text => p.record (.name (some text)) .explicit
  | .defaultName => p.record (.name none) .explicit
  | .schema text => p.record (.schema text) .explicit
  | .signature signature => p.bound signature .explicit
  | .annotate key value => p.record (.annotate key value) .explicit
  | .unannotate key => p.record (.unannotate key) .explicit
  | .parameter key w => p.record (.parameter key w) .explicit
  | .select _ => p

variable {settings : ModelSettings} {p : Procedure} {statement : Statement} {w : Write} {x : Error}

/-- A write that is not refused is recorded. -/
theorem overwrite_eq (hopen : p.isWritable settings = true)
    (hdeclared : p.ensureDeclared settings w = .ok ()) :
    p.overwrite settings w = .ok (p.record w .explicit) := by
  have haccepts : p.accepts settings w .explicit = true := by
    apply accepts_explicit
    intro key v hw
    cases hfound : p.findParameter? key with
    | some q => rfl
    | none => simp [ensureDeclared, hw, hfound] at hdeclared
  have hwritten : p.write settings w .explicit = .ok (some (p.record w .explicit)) :=
    write_eq_ok_iff.2 ⟨hopen, hdeclared, by rw [if_pos haccepts]⟩
  rw [overwrite, hwritten]
  rfl

/-- A write to a parameter that is not declared is refused. -/
theorem overwrite_undeclared (hopen : p.isWritable settings = true)
    (hdeclared : p.ensureDeclared settings w = .error x) : p.overwrite settings w = .error x := by
  have hcheck := (ensureWritable_eq_ok_iff settings p).2 hopen
  simp only [overwrite, write, hcheck, hdeclared, bind, Except.bind]

/-- An identifier is checked before it is written. -/
theorem ensureIdentifier_eq (hopen : p.isWritable settings = true) (text : String) :
    p.ensureIdentifier settings text = match tooLong? settings.config text with
      | some x => .error x
      | none => .ok () := by
  have hcheck := (ensureWritable_eq_ok_iff settings p).2 hopen
  unfold ensureIdentifier Config.validateIdentifier tooLong?
  by_cases hlong : settings.config.maxIdentifierLength.toNat < text.length <;>
    simp [hcheck, hlong, bind, Except.bind]

theorem bindSignature_eq (hopen : p.isWritable settings = true) (signature : Signature)
    (s : Source) : p.bindSignature settings signature s =
      if p.signatureBound then .error (.signatureAlreadyBound (p.displayName settings))
      else match signature.firstDuplicate with
        | some key => .error (.duplicateParameter (p.displayName settings) key)
        | none => .ok (p.bound signature s) := by
  have hcheck := (ensureWritable_eq_ok_iff settings p).2 hopen
  unfold bindSignature ensureUnbound Signature.checkUnique
  by_cases hbound : p.signatureBound = true
  · simp [hcheck, hbound, bind, Except.bind]
  · cases hduplicate : signature.firstDuplicate <;>
      simp [hcheck, hbound, bind, Except.bind]

/-- **A statement on a writable procedure** is refused for its own objection, or carried out. -/
theorem configure_open (hopen : p.isWritable settings = true) (statement : Statement) :
    p.configure settings statement = match p.objection? settings statement with
      | some x => .error x
      | none => .ok (p.obey statement) := by
  cases statement with
  | name text =>
      rw [configure, ensureIdentifier_eq hopen, objection?]
      cases tooLong? settings.config text with
      | some x => rfl
      | none => exact overwrite_eq hopen rfl
  | schema target =>
      cases target with
      | none => exact overwrite_eq hopen rfl
      | some text =>
          rw [configure, ensureIdentifier_eq hopen, objection?]
          cases tooLong? settings.config text with
          | some x => rfl
          | none => exact overwrite_eq hopen rfl
  | signature signature =>
      rw [configure, bindSignature_eq hopen, objection?]
      split
      · rfl
      · cases signature.firstDuplicate <;> rfl
  | parameter key v =>
      rw [configure, objection?, undeclared?]
      by_cases hfound : (p.findParameter? key).isSome = true
      · rw [if_pos hfound]
        exact overwrite_eq hopen (by simp [ensureDeclared, hfound])
      · rw [if_neg hfound]
        exact overwrite_undeclared hopen (by simp [ensureDeclared, hfound])
  | select key =>
      have hcheck := (ensureWritable_eq_ok_iff settings p).2 hopen
      rw [configure, requireParameter, hcheck, objection?, undeclared?]
      cases hfound : p.findParameter? key <;> simp [bind, Except.bind, Except.map, obey]
  | _ => exact overwrite_eq hopen rfl

theorem configure_open_error (hopen : p.isWritable settings = true)
    (h : p.configure settings statement = .error x) :
    p.objection? settings statement = some x := by
  rw [configure_open hopen] at h
  split at h
  · next hobjection =>
      cases h
      exact hobjection
  · cases h

/-- **A statement is refused, or it is carried out.** -/
theorem configure_eq (settings : ModelSettings) (p : Procedure) (statement : Statement) :
    p.configure settings statement = match p.refusal? settings statement with
      | some x => .error x
      | none => .ok (p.obey statement) := by
  unfold refusal?
  by_cases hremoved : p.removed = true
  · rw [if_pos hremoved]
    exact configure_closed (ensureWritable_removed settings p hremoved) statement
  · rw [if_neg hremoved]
    by_cases hfinal : settings.readOnly = true
    · rw [if_pos hfinal]
      refine configure_closed ?_ statement
      simp [ensureWritable, hremoved, ModelSettings.ensureWritable, hfinal]
    · rw [if_neg hfinal]
      exact configure_open (by simp [isWritable, hremoved, hfinal]) statement

end Procedure

end ProcedureMapping
