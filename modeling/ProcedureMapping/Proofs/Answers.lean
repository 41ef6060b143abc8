import ProcedureMapping.Proofs.Session
import ProcedureMapping.Proofs.Targets

/-!
# Questions and writes

A write is answered in one of three ways: it applies, it backs off, or it fails.  The question
whether it would apply is asked on another path than the write takes, and the two agree in every
state.  A write that applies changes its target and nothing else; any other leaves the workspace as
it was.

Main statements:

* `execute_write` — what a write gives, whatever the answer;
* `writes_follow_questions` — questions and writes agree.
-/

namespace ProcedureMapping

namespace Procedure

variable (settings : ModelSettings) (p : Procedure) (write : Write) (s : Source)

/-- The record after a write, whether it applies or not. -/
def after : Procedure := if p.can settings write s then p.record write s else p

/-- What a write is answered with. -/
def answer : Except Error Outcome :=
  (p.write settings write s).map fun written => .applied written.isSome

variable {settings p write s}

theorem answer_eq_applied_iff :
    p.answer settings write s = .ok (.applied true) ↔ p.can settings write s = true := by
  rw [← write_isSome_iff, answer]
  cases p.write settings write s with
  | error e => simp [Except.map]
  | ok written => cases written <;> simp [Except.map]

theorem answer_eq_error_iff : (∃ e, p.answer settings write s = .error e) ↔
    p.removed = true ∨ settings.readOnly = true ∨
      ∃ key v, write = .parameter key v ∧ p.findParameter? key = none := by
  have hopen : p.isWritable settings = false ↔ p.removed = true ∨ settings.readOnly = true := by
    cases hremoved : p.removed <;> simp [isWritable, hremoved]
  rw [← or_assoc, ← hopen, ← write_eq_error_iff settings p write s]
  simp only [answer, map_eq_error_iff]

theorem answer_cases (settings : ModelSettings) (p : Procedure) (write : Write) (s : Source) :
    p.answer settings write s = .ok (.applied true) ∨
      p.answer settings write s = .ok (.applied false) ∨
      ∃ e, p.answer settings write s = .error e := by
  unfold answer
  cases p.write settings write s with
  | error e => exact .inr (.inr ⟨e, rfl⟩)
  | ok written =>
      cases written with
      | none => exact .inr (.inl rfl)
      | some q => exact .inl rfl

/-- A write that does not apply leaves the record as it is. -/
theorem after_of_not_applied (h : p.answer settings write s ≠ .ok (.applied true)) :
    p.after settings write s = p :=
  if_neg fun hcan => h (answer_eq_applied_iff.2 hcan)

/-- A write that applies is recorded. -/
theorem after_of_applied (h : p.answer settings write s = .ok (.applied true)) :
    p.after settings write s = p.record write s :=
  if_pos (answer_eq_applied_iff.1 h)

/-- What an accepted write addresses is there. -/
theorem entryAt?_target_of_accepts (h : p.accepts settings write s = true) :
    (p.entryAt? write.target).isSome = true := by
  cases write with
  | parameter key v =>
      simp only [accepts] at h
      simp only [Write.target, entryAt?, Option.isSome_map]
      cases hq : p.findParameter? key with
      | none =>
          rw [hq] at h
          cases h
      | some q => rfl
  | _ => rfl

/-- An accepted write puts its value and the stronger source into its target. -/
theorem entryAt?_record_of_can (h : p.can settings write s = true) :
    (p.record write s).entryAt? write.target =
      some (write.leaves (s.max (p.recorded? write.target))) := by
  have haccepts : p.accepts settings write s = true := (Bool.and_eq_true_iff.1 h).2
  obtain ⟨entry, hentry⟩ := Option.isSome_iff_exists.1 (entryAt?_target_of_accepts haccepts)
  rw [entryAt?_record_target, hentry, Option.map_some]

end Procedure

namespace Workspace

variable {w : Workspace} {ref : ProcedureRef} {m : Model} {p : Procedure}

/-- **What a write gives**: the answer, and the workspace with the record after the write. -/
theorem execute_write (hp : w.procedure? ref = some (m, p)) (write : Procedure.Write)
    (s : Source) : w.execute (.write ref write s) =
      some (w.setModel ref.model (m.setProcedure ref.id (p.after m.settings write s)),
        p.answer m.settings write s) := by
  obtain ⟨hm, hget⟩ := procedure?_eq_some_iff.1 hp
  have hself : w.setModel ref.model (m.setProcedure ref.id p) = w := by
    rw [Model.setProcedure_self hget, setModel_self hm]
  simp only [execute, changeProcedure, hp, Procedure.answer]
  cases hwrite : p.write m.settings write s with
  | error e =>
      have hfails : p.answer m.settings write s ≠ .ok (.applied true) := by
        rw [Procedure.answer, hwrite]
        intro h
        cases h
      rw [Procedure.after_of_not_applied hfails, hself]
      rfl
  | ok written =>
      cases written with
      | none =>
          have hbacks : p.answer m.settings write s ≠ .ok (.applied true) := by
            rw [Procedure.answer, hwrite]
            intro h
            cases h
          rw [Procedure.after_of_not_applied hbacks]
          rfl
      | some q =>
          have happlies : p.answer m.settings write s = .ok (.applied true) := by
            rw [Procedure.answer, hwrite]
            rfl
          obtain ⟨_, rfl⟩ := Procedure.write_eq_ok_some hwrite
          rw [Procedure.after_of_applied happlies]
          rfl

/-- How a write at source `s` to the record `p` of the model `m` goes: the answer `a` is the one
that the question gave, and the workspace afterwards is `w'`. -/
structure Negotiated (w : Workspace) (ref : ProcedureRef) (m : Model) (p : Procedure)
    (write : Procedure.Write) (s : Source) (w' : Workspace) (a : Except Error Outcome) :
    Prop where
  applied : a = .ok (.applied true) ↔ p.can m.settings write s = true
  refused : (∃ e, a = .error e) ↔ p.removed = true ∨ m.settings.readOnly = true ∨
    ∃ key v, write = .parameter key v ∧ p.findParameter? key = none
  otherwise : a = .ok (.applied true) ∨ a = .ok (.applied false) ∨ ∃ e, a = .error e
  unchanged : a ≠ .ok (.applied true) → w' = w
  changed : a = .ok (.applied true) →
    ∃ q, w' = w.setModel ref.model (m.setProcedure ref.id q) ∧
      q.entryAt? write.target = some (write.leaves (s.max (p.recorded? write.target))) ∧
      p.AgreesExcept q write.target

theorem negotiated_write (hp : w.procedure? ref = some (m, p)) (write : Procedure.Write)
    (s : Source) : Negotiated w ref m p write s
      (w.setModel ref.model (m.setProcedure ref.id (p.after m.settings write s)))
      (p.answer m.settings write s) where
  applied := Procedure.answer_eq_applied_iff
  refused := Procedure.answer_eq_error_iff
  otherwise := p.answer_cases m.settings write s
  unchanged hnot := by
    obtain ⟨hm, hget⟩ := procedure?_eq_some_iff.1 hp
    rw [Procedure.after_of_not_applied hnot, Model.setProcedure_self hget, setModel_self hm]
  changed happlies := by
    refine ⟨_, rfl, ?_, ?_⟩
    · rw [Procedure.after_of_applied happlies]
      exact Procedure.entryAt?_record_of_can (Procedure.answer_eq_applied_iff.1 happlies)
    · rw [Procedure.after_of_applied happlies]
      exact p.agreesExcept_record write s

/-- **Questions and writes agree** in every state, at any source and by convention; what applies
changes the target of the write and nothing else, and what does not apply changes nothing. -/
theorem writes_follow_questions (hp : w.procedure? ref = some (m, p)) (write : Procedure.Write) :
    (∀ s, ∃ w' a, w.execute (.write ref write s) = some (w', a) ∧
      Negotiated w ref m p write s w' a) ∧
    ∀ da, ∃ w' a, w.execute (.suggest ref write da) = some (w', a) ∧
      Negotiated w ref m p write (.ofConvention da) w' a := by
  refine ⟨?_, ?_⟩
  · intro s
    exact ⟨_, _, execute_write hp write s, negotiated_write hp write s⟩
  · intro da
    -- A suggestion is a write at the source of the convention.
    exact ⟨_, _, execute_write hp write (.ofConvention da),
      negotiated_write hp write (.ofConvention da)⟩

/-- A record with a name that an attribute has asked for. -/
def upserting : List Step × Workspace :=
  (carryOn (IsOpen []) [] .empty
    [.createModel .standard, .addType 0 "Animal" none, .createRegistry 0,
      .setConvention ⟨0, 0⟩ 0 ⟨0, 0, "Animal"⟩ .insert true,
      .suggest ⟨0, 0⟩ (.name (some "Upsert")) true]).get rfl

/-- A convention backs off before the name, explicit code does not. -/
theorem writes_follow_questions_upserting :
    ∃ m p, upserting.2.procedure? ⟨0, 0⟩ = some (m, p) ∧
      (∀ s, ∃ w' a, upserting.2.execute (.write ⟨0, 0⟩ (.name (some "Merge")) s) = some (w', a) ∧
        Negotiated upserting.2 ⟨0, 0⟩ m p (.name (some "Merge")) s w' a) ∧
      p.can m.settings (.name (some "Merge")) .convention = false ∧
      p.can m.settings (.name (some "Merge")) .explicit = true := by
  have hp : upserting.2.procedure? ⟨0, 0⟩ = some _ := rfl
  exact ⟨_, _, hp, (writes_follow_questions hp (.name (some "Merge"))).1, rfl, rfl⟩

end Workspace

end ProcedureMapping
