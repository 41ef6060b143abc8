import ProcedureMapping.Proofs.Independence
import ProcedureMapping.Proofs.Provenance

/-!
# Repeating a schema

A call for the schema that is recorded already asks for nothing new.  As a rule it is accepted at
any source, it leaves the schema that applies, and it raises the recorded source, if it changes
anything at all.

But whether a call repeats what is there is told by the schema that applies, and where none is
recorded this is the default schema of the model.  So no schema does not count as a repetition of no
schema while the model has a default one, and a source that is too weak backs off from what has just
been accepted.

Main statements:

* `acceptsSchema_recorded` — when a schema is accepted that is recorded already;
* `schema_reaffirmed` — repeating an accepted call for a schema;
* `no_schema_refused` — a repetition that is not accepted.
-/

namespace ProcedureMapping

namespace Procedure

variable {settings : ModelSettings} {p : Procedure} {s : Source}

/-- **When a schema is accepted that is recorded already**: always, unless none is recorded while
there is a default one. -/
theorem acceptsSchema_recorded : p.acceptsSchema settings p.schema.value s = true ↔
    p.schema.value ≠ none ∨ settings.defaultSchema.value = none ∨
      s.overrides p.schema.source = true := by
  have hrule : p.acceptsSchema settings p.schema.value s = true ↔
      s.overrides p.schema.source = true ∨ p.effectiveSchema settings = p.schema.value :=
    acceptsSchema_iff (c := ⟨p.schema.value, s⟩)
  rw [hrule, effectiveSchema_eq]
  cases p.schema.value with
  | some x => simp
  | none =>
      rw [Option.none_or]
      simp [or_comm]

/-- A schema that is recorded again goes on applying. -/
theorem effectiveSchema_record : (p.record (.schema p.schema.value) s).effectiveSchema settings =
    p.effectiveSchema settings := rfl

end Procedure

namespace Workspace

variable {w w₁ : Workspace} {ref : ProcedureRef} {c : Command} {o : Outcome} {m : Model}
  {p : Procedure} {value : Option String} {s : Source}

/-- How a call at source `s` for the schema that the record `p` of the model `m` holds goes: it is
accepted or not, as `b` says, and the workspace afterwards is `w'`. -/
structure Repeated (w : Workspace) (ref : ProcedureRef) (m : Model) (p : Procedure) (s : Source)
    (w' : Workspace) (b : Bool) : Prop where
  accepted : b = true ↔ p.schema.value ≠ none ∨ m.settings.defaultSchema.value = none ∨
    s.overrides p.schema.source = true
  recorded : b = true → ∃ q, w' = w.setModel ref.model (m.setProcedure ref.id q) ∧
    q.schema = ⟨p.schema.value, some (s.max p.schema.source)⟩ ∧
    q.effectiveSchema m.settings = p.effectiveSchema m.settings ∧ p.AgreesExcept q .schema
  otherwise : b = false → w' = w

/-- Calls for the schema that is recorded. -/
theorem execute_repeated (hp : w.procedure? ref = some (m, p))
    (hopen : p.isWritable m.settings = true) (s : Source) : ∃ w' b,
      w.execute (.write ref (.schema p.schema.value) s) = some (w', .ok (.applied b)) ∧
        Repeated w ref m p s w' b := by
  obtain ⟨w', hdoes, hyes, hno⟩ :=
    execute_write_open hp hopen (.schema p.schema.value) rfl s
  refine ⟨w', _, hdoes, Procedure.acceptsSchema_recorded, ?_, hno⟩
  intro haccepts
  exact ⟨_, hyes haccepts, rfl, Procedure.effectiveSchema_record,
    p.agreesExcept_record (.schema p.schema.value) s⟩

/-- **Repeating an accepted call for a schema**, at any source or by convention.  The repetition
never fails.  It is accepted, unless it asks for no schema while the model has a default one and its
source is too weak; then it leaves the schema that applies and records the stronger source, and
otherwise it changes nothing. -/
theorem schema_reaffirmed (hp : w.procedure? ref = some (m, p))
    (hreq : c.request? ref = some (.schema value, s))
    (hfirst : w.execute c = some (w₁, .ok o)) (hgranted : (⟨c, .ok o⟩ : Step).granted = true) :
    ∃ m₁ p₁, w₁.procedure? ref = some (m₁, p₁) ∧ p₁.schema.value = value ∧
      (∀ s', ∃ w₂ b, w₁.execute (.write ref (.schema value) s') = some (w₂, .ok (.applied b)) ∧
        Repeated w₁ ref m₁ p₁ s' w₂ b) ∧
      ∀ da, ∃ w₂ b,
        w₁.execute (.suggest ref (.schema value) da) = some (w₂, .ok (.applied b)) ∧
          Repeated w₁ ref m₁ p₁ (.ofConvention da) w₂ b := by
  obtain ⟨hopen, haccepts⟩ := execute_granted hreq hfirst hp
  have hrecord : p.heed m.settings (.schema value) s = p.record (.schema value) s :=
    if_pos (haccepts.symm.trans hgranted)
  have hw₁ := execute_request hreq hfirst hp
  rw [hrecord] at hw₁
  have hp₁ := procedure?_setProcedure hp (p.record (.schema value) s)
  rw [← hw₁] at hp₁
  have hrepeated := execute_repeated hp₁ hopen
  -- A suggestion is a write at the source of the convention.
  exact ⟨_, _, hp₁, rfl, hrepeated, fun da => hrepeated (.ofConvention da)⟩

/-- A procedure that a convention has made, under the default schema "dbo". -/
def suggestible : List Step × Workspace :=
  (carryOn (IsOpen []) [] .empty
    [.createModel .standard, .setDefaultSchema 0 (some "dbo") .convention,
      .addType 0 "Blog" none, .createRegistry 0,
      .setConvention ⟨0, 0⟩ 0 ⟨0, 0, "Blog"⟩ .insert false]).get rfl

/-- The same after an attribute has asked for no schema. -/
def undecided : Workspace :=
  ((suggestible.2.execute (.suggest ⟨0, 0⟩ (.schema none) true)).get rfl).1

theorem schema_reaffirmed_undecided :
    suggestible.2.execute (.suggest ⟨0, 0⟩ (.schema none) true) =
      some (undecided, .ok (.applied true)) ∧
    ∃ m p, undecided.procedure? ⟨0, 0⟩ = some (m, p) ∧ p.schema.value = none ∧
      ∀ s, ∃ w b, undecided.execute (.write ⟨0, 0⟩ (.schema none) s) =
        some (w, .ok (.applied b)) ∧ Repeated undecided ⟨0, 0⟩ m p s w b := by
  have hp : suggestible.2.procedure? ⟨0, 0⟩ = some _ := rfl
  have hfirst : suggestible.2.execute (.suggest ⟨0, 0⟩ (.schema none) true) =
      some (undecided, .ok (.applied true)) := rfl
  obtain ⟨m, p, hp', hvalue, hrepeated, _⟩ := schema_reaffirmed hp rfl hfirst rfl
  exact ⟨hfirst, m, p, hp', hvalue, hrepeated⟩

/-- **A repetition that is not accepted**: no schema is asked for once more, by a convention that is
weaker. -/
theorem no_schema_refused : Session suggestible.1 suggestible.2 ∧
    suggestible.2.execute (.suggest ⟨0, 0⟩ (.schema none) true) =
      some (undecided, .ok (.applied true)) ∧
    undecided.execute (.suggest ⟨0, 0⟩ (.schema none) false) =
      some (undecided, .ok (.applied false)) :=
  ⟨Run.carryOn .nil (Option.some_get rfl).symm, rfl, rfl⟩

end Workspace

end ProcedureMapping
