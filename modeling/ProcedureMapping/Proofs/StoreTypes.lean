import ProcedureMapping.Proofs.Independence

/-!
# Repeating a store type

The store type that applies to a parameter is the recorded one, or else that of the type mapping.
The two are recorded apart, each at its own source.

A call for the store type that applies asks for nothing new, and where it is accepted nothing new
comes of it: that type goes on applying, now as the recorded one, and the recorded source does not
sink.  But the type mapping has no say in what is accepted.  Once somebody has cleared the store
type, the type of the mapping applies, and a call that names it is weighed against the one who has
cleared: a weaker source backs off from what applies already.

Main statements:

* `Parameter.accepts_effectiveStoreType` — when the store type that applies is accepted;
* `store_type_reaffirmed` — repeating the store type that applies;
* `mapped_type_refused` — a repetition that is not accepted.
-/

namespace ProcedureMapping

namespace Parameter

variable {q : Parameter} {t : String} {s : Source}

/-- What applies is recorded, or it is the type of the mapping while nothing is recorded. -/
theorem effectiveStoreType_eq_some_iff : q.effectiveStoreType = some t ↔
    q.storeType.value = some t ∨
      q.storeType.value = none ∧ ∃ mapping, q.typeMapping.value = some mapping ∧
        mapping.storeType = t := by
  unfold effectiveStoreType
  cases q.storeType.value <;> simp

/-- **When the store type that applies is accepted**: always where it is the recorded one, and
otherwise only from a source that overrides the record. -/
theorem accepts_effectiveStoreType (h : q.effectiveStoreType = some t) :
    q.accepts (.storeType (some t)) s = true ↔
      q.storeType.value ≠ none ∨ s.overrides q.storeType.source = true := by
  simp only [accepts, Tracked.accepts, Bool.or_eq_true, beq_iff_eq]
  rcases effectiveStoreType_eq_some_iff.1 h with hrecorded | ⟨hnone, _⟩
  · simp [hrecorded]
  · simp [hnone]

end Parameter

namespace Workspace

variable {w : Workspace} {ref : ProcedureRef} {m : Model} {p : Procedure} {key t : String}
  {q : Parameter}

/-- How a call at source `s` for the store type `t` that applies to the parameter `q` goes: it is
accepted or not, as `b` says, and the workspace afterwards is `w'`. -/
structure Retyped (w : Workspace) (ref : ProcedureRef) (m : Model) (p : Procedure) (key : String)
    (q : Parameter) (t : String) (s : Source) (w' : Workspace) (b : Bool) : Prop where
  asked : p.can m.settings (.parameter key (.storeType (some t))) s = b
  accepted : b = true ↔ q.storeType.value ≠ none ∨ s.overrides q.storeType.source = true
  recorded : b = true → ∃ p' q', w' = w.setModel ref.model (m.setProcedure ref.id p') ∧
    p'.findParameter? key = some q' ∧
    q'.storeType = ⟨some t, some (s.max q.storeType.source)⟩ ∧ q'.effectiveStoreType = some t ∧
    p.AgreesExcept p' (.parameter key .storeType)
  otherwise : b = false → w' = w

/-- Calls for the store type that applies. -/
theorem execute_retyped (hp : w.procedure? ref = some (m, p))
    (hopen : p.isWritable m.settings = true) (hq : p.findParameter? key = some q)
    (ht : q.effectiveStoreType = some t) (s : Source) : ∃ w' b,
      w.execute (.write ref (.parameter key (.storeType (some t))) s) =
        some (w', .ok (.applied b)) ∧ Retyped w ref m p key q t s w' b := by
  have hthere : (p.entryAt? (.parameter key .storeType)).isSome = true := by
    rw [Procedure.entryAt?, hq]
    rfl
  have haccepts : p.accepts m.settings (.parameter key (.storeType (some t))) s =
      q.accepts (.storeType (some t)) s := by
    rw [Procedure.accepts, hq, Option.any_some]
  obtain ⟨w', hdoes, hyes, hno⟩ :=
    execute_write_open hp hopen (.parameter key (.storeType (some t))) hthere s
  rw [haccepts] at hdoes hyes hno
  refine ⟨w', _, hdoes, ?_, Parameter.accepts_effectiveStoreType ht, ?_, hno⟩
  · rw [Procedure.can, hopen, haccepts, Bool.true_and]
  · intro happlies
    refine ⟨_, q.record (.storeType (some t)) s, hyes happlies, ?_, rfl, rfl,
      p.agreesExcept_record (.parameter key (.storeType (some t))) s⟩
    rw [Procedure.findParameter?_record, hq, Option.map_some, if_pos rfl]

/-- **Repeating the store type that applies**, at any source or by convention, in whatever state.
The call never fails, and the question about it gives the same answer.  It is accepted, unless the
type comes from the mapping and the source is too weak for the record of the store type; then the
type goes on applying and the stronger source is recorded, and otherwise nothing changes. -/
theorem store_type_reaffirmed (hp : w.procedure? ref = some (m, p))
    (hopen : p.isWritable m.settings = true) (hq : p.findParameter? key = some q)
    (ht : q.effectiveStoreType = some t) :
    (∀ s, ∃ w' b, w.execute (.write ref (.parameter key (.storeType (some t))) s) =
        some (w', .ok (.applied b)) ∧ Retyped w ref m p key q t s w' b) ∧
      ∀ da, ∃ w' b, w.execute (.suggest ref (.parameter key (.storeType (some t))) da) =
        some (w', .ok (.applied b)) ∧ Retyped w ref m p key q t (.ofConvention da) w' b := by
  have hretyped := execute_retyped hp hopen hq ht
  -- A suggestion is a write at the source of the convention.
  exact ⟨hretyped, fun da => hretyped (.ofConvention da)⟩

/-- A procedure whose parameter has a type mapping, and a store type cleared by an attribute. -/
def remapped : List Step × Workspace :=
  (carryOn (IsOpen []) [] .empty
    [.createModel .standard, .addType 0 "Blog" none, .createRegistry 0,
      .setConvention ⟨0, 0⟩ 0 ⟨0, 0, "Blog"⟩ .insert false,
      .suggestSignature ⟨0, 0⟩ ⟨["id"]⟩ false,
      .suggest ⟨0, 0⟩ (.parameter "id" (.typeMapping (some (.ofStoreType "int")))) false,
      .suggest ⟨0, 0⟩ (.parameter "id" (.storeType none)) true]).get rfl

/-- Attributes and explicit code repeat the type of the mapping; a convention backs off from it. -/
theorem store_type_reaffirmed_remapped :
    ∃ m p q, remapped.2.procedure? ⟨0, 0⟩ = some (m, p) ∧ p.isWritable m.settings = true ∧
      p.findParameter? "id" = some q ∧ q.effectiveStoreType = some "int" ∧
      ∀ s, ∃ w b,
        remapped.2.execute (.write ⟨0, 0⟩ (.parameter "id" (.storeType (some "int"))) s) =
          some (w, .ok (.applied b)) ∧
        Retyped remapped.2 ⟨0, 0⟩ m p "id" q "int" s w b := by
  have hp : remapped.2.procedure? ⟨0, 0⟩ = some _ := rfl
  exact ⟨_, _, _, hp, rfl, rfl, rfl, (store_type_reaffirmed hp rfl rfl rfl).1⟩

/-- **A repetition that is not accepted**: a convention asks for the type that applies. -/
theorem mapped_type_refused : Session remapped.1 remapped.2 ∧
    ∃ m p q, remapped.2.procedure? ⟨0, 0⟩ = some (m, p) ∧ p.isWritable m.settings = true ∧
      p.findParameter? "id" = some q ∧ q.effectiveStoreType = some "int" ∧
      p.can m.settings (.parameter "id" (.storeType (some "int"))) .convention = false ∧
      remapped.2.execute (.suggest ⟨0, 0⟩ (.parameter "id" (.storeType (some "int"))) false) =
        some (remapped.2, .ok (.applied false)) :=
  ⟨Run.carryOn .nil (Option.some_get rfl).symm, _, _, _, rfl, rfl, rfl, rfl, rfl, rfl⟩

end Workspace

end ProcedureMapping
