import ProcedureMapping.Proofs.Session

/-!
# Closed records

A record is **closed** once it is removed or its model is finalized.  Every handle on a record asks
whether it is closed before it asks anything else, so on a closed record each write fails with the
same error: an over-long identifier, a repeated signature or an unknown parameter is not reported
there.  Removal is reported before finalization.

A call through a handle never reaches past its record.

Main statements:

* `Procedure.configure_closed`, `Procedure.write_closed`, `Procedure.can_closed` — what a closed
  record answers;
* `execute_closed` — a call through a handle on a closed record;
* `Effect.elsewhere` — a call through a handle leaves every other record as it is.
-/

namespace ProcedureMapping

/-! ## Records -/

namespace Procedure

variable {settings : ModelSettings} {p : Procedure} {x : Error}

/-- A check that a record fails ends a chain of checks. -/
theorem ensureWritable_bind {α : Type} (h : p.ensureWritable settings = .error x)
    (rest : Unit → Except Error α) : (p.ensureWritable settings >>= rest) = .error x := by
  rw [h]
  rfl

/-- A closed record is removed, or its model is finalized. -/
theorem ensureWritable_eq_error (h : p.ensureWritable settings = .error x) :
    x = .removedFromModel (p.displayName settings) ∨
      x = .readOnlyModel (p.displayName settings) := by
  unfold ensureWritable ModelSettings.ensureWritable at h
  split at h
  · exact .inl (Except.error.inj h).symm
  · split at h
    · exact .inr (Except.error.inj h).symm
    · cases h

theorem isWritable_closed (h : p.ensureWritable settings = .error x) :
    p.isWritable settings = false := by
  rw [Bool.eq_false_iff, ne_eq, ← ensureWritable_eq_ok_iff, h]
  simp

theorem can_closed (h : p.ensureWritable settings = .error x) (w : Write) (s : Source) :
    p.can settings w s = false := by
  rw [can, isWritable_closed h, Bool.false_and]

/-- A closed record lets no change through but its removal. -/
theorem eq_detach_of_closed {change : Change} (h : p.ensureWritable settings = .error x)
    (hallowed : p.Allows settings change) : change = .detach := by
  have hclosed : ¬ p.isWritable settings = true := by simp [isWritable_closed h]
  cases change with
  | write w s =>
      have hopen : p.can settings w s = true := hallowed
      rw [can_closed h] at hopen
      cases hopen
  | bind signature s => exact absurd hallowed.1 hclosed
  | raise s => exact absurd hallowed hclosed
  | detach => rfl

theorem write_closed (h : p.ensureWritable settings = .error x) (w : Write) (s : Source) :
    p.write settings w s = .error x :=
  ensureWritable_bind h _

theorem bindSignature_closed (h : p.ensureWritable settings = .error x) (signature : Signature)
    (s : Source) : p.bindSignature settings signature s = .error x :=
  ensureWritable_bind h _

theorem restamp_closed (h : p.ensureWritable settings = .error x) (s : Source) :
    p.restamp settings s = .error x :=
  ensureWritable_bind h _

/-- A parameter of a closed record cannot be selected, whether it is declared or not. -/
theorem requireParameter_closed (h : p.ensureWritable settings = .error x) (name : String) :
    p.requireParameter settings name = .error x :=
  ensureWritable_bind h _

theorem overwrite_closed (h : p.ensureWritable settings = .error x) (w : Write) :
    p.overwrite settings w = .error x := by
  rw [overwrite, write_closed h]
  rfl

/-- The length of an identifier is not looked at on a closed record. -/
theorem ensureIdentifier_closed (h : p.ensureWritable settings = .error x)
    (identifier : String) : p.ensureIdentifier settings identifier = .error x :=
  ensureWritable_bind h _

theorem configure_closed (h : p.ensureWritable settings = .error x) (statement : Statement) :
    p.configure settings statement = .error x := by
  cases statement with
  | name value =>
      rw [configure, ensureIdentifier_closed h]
      rfl
  | schema value =>
      cases value with
      | none => exact overwrite_closed h _
      | some value =>
          rw [configure, ensureIdentifier_closed h]
          rfl
  | signature signature => exact bindSignature_closed h signature .explicit
  | select name =>
      rw [configure, requireParameter_closed h]
      rfl
  | _ => exact overwrite_closed h _

end Procedure

/-! ## Calls through handles -/

/-- The record that a call is made on through a handle: an explicit one, one of a convention, or the
gateway. -/
def Command.handle? : Command → Option ProcedureRef
  | configure ref _ | suggest ref .. | suggestSignature ref .. | write ref ..
  | bindSignature ref .. | restamp ref _ => some ref
  | _ => none

/-- A call through a handle changes no record but its own, and nothing else. -/
theorem Command.Makes.handle {c : Command} {i : ModelId} {e : Model.Change} {ref : ProcedureRef}
    (h : c.Makes i e) (hhandle : c.handle? = some ref) :
    i = ref.model ∧ ∃ change, e = .procedure ref.id change := by
  cases h <;> cases hhandle <;> exact ⟨rfl, _, rfl⟩

theorem Model.Acts.procedure_id {m : Model} {i j : ProcedureId} {change change' : Procedure.Change}
    (h : m.Acts (.procedure j change) i change') : i = j := by
  cases h
  rfl

namespace Workspace

variable {w w' : Workspace} {c : Command} {ref : ProcedureRef} {m : Model} {p : Procedure}

/-- A call that its record refuses changes nothing. -/
theorem changeProcedure_error {α : Type} {x : Error}
    {call : ModelSettings → Procedure → Except Error α}
    {result : Procedure → α → Outcome × Procedure} (hp : w.procedure? ref = some (m, p))
    (h : call m.settings p = .error x) :
    (w.changeProcedure ref fun settings p => (call settings p).map (result p)) =
      some (w, .error x) := by
  simp only [changeProcedure, hp, h, Except.map]

/-- **A call through a handle on a closed record** fails with the reason why the record is closed,
and changes nothing. -/
theorem execute_closed {x : Error} (hp : w.procedure? ref = some (m, p))
    (hclosed : p.ensureWritable m.settings = .error x) (hhandle : c.handle? = some ref) :
    w.execute c = some (w, .error x) := by
  cases c with simp only [Command.handle?, Option.some.injEq, reduceCtorEq] at hhandle
  | configure _ statement =>
      subst hhandle
      simp only [execute]
      exact changeProcedure_error hp (Procedure.configure_closed hclosed statement)
  | suggest _ write da | write _ write s =>
      subst hhandle
      simp only [execute]
      exact changeProcedure_error hp (Procedure.write_closed hclosed write _)
  | suggestSignature _ signature da | bindSignature _ signature s =>
      subst hhandle
      simp only [execute]
      exact changeProcedure_error hp (Procedure.bindSignature_closed hclosed signature _)
  | restamp _ s =>
      subst hhandle
      simp only [execute]
      exact changeProcedure_error hp (Procedure.restamp_closed hclosed s)

/-- **A call through a handle** leaves every other record as it is. -/
theorem Effect.elsewhere {other : ProcedureRef} (h : w.Effect c w')
    (hhandle : c.handle? = some ref) (hother : other ≠ ref)
    (hp : w.procedure? other = some (m, p)) : ∃ m', w'.procedure? other = some (m', p) := by
  obtain ⟨m', p', hp', hafter⟩ := h.procedure_after hp
  have hsame : p' = p := by
    rcases hafter with ⟨_, hsame⟩ | ⟨e, hmakes, _, _, hsame | ⟨change, hacts, _⟩⟩
    · exact hsame
    · exact hsame
    · -- The change acts on the record of the handle, which is another one.
      obtain ⟨hmodel, change', rfl⟩ := hmakes.handle hhandle
      have hid : other.id = ref.id := hacts.procedure_id
      have hsame : other = ref := by
        cases other
        cases ref
        simp_all
      exact absurd hsame hother
  exact ⟨m', hsame ▸ hp'⟩

end Workspace

end ProcedureMapping
