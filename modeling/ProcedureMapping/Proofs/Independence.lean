import ProcedureMapping.Proofs.Answers
import ProcedureMapping.Proofs.RisingSources

/-!
# Independent writes

Two writes are independent when they go to different records or have different targets.  A record
is replaced in a workspace like an entry in a record, so independent writes do the same in either
order.

They are answered the same too, although an error names its record by the name and the schema that
apply, which another write is able to change.  Acceptance is told by the target alone; a closed
record is closed to both writes, and keeps its name; and the report of an undeclared parameter, the
one error of an open record, does not come up: builders are handed out for declared parameters only,
and a parameter stays.

Main statements:

* `Procedure.answer_after`, `Procedure.after_comm` — independent writes to one record;
* `record?_setRecord`, `setRecord_comm` — the records of a workspace;
* `held_declared` — what a builder addresses is there;
* `independent_writes_commute` — independent writes in either order.
-/

namespace ProcedureMapping

/-! ## Writes to one record -/

namespace Procedure

variable {settings : ModelSettings} {p : Procedure} {write write' : Write} {s s' : Source}
  {a : Attribute}

theorem requireParameter_eq_ok {name : String} {q : Parameter}
    (h : p.requireParameter settings name = .ok q) : p.findParameter? name = some q := by
  obtain ⟨_, _, hfound⟩ := bind_eq_ok_iff.1 h
  split at hfound
  · next q' hq' => rw [hq', Except.ok.inj hfound]
  · cases hfound

theorem entryAt?_after (h : a ≠ write.target) :
    (p.after settings write s).entryAt? a = p.entryAt? a := by
  unfold after
  split
  · exact entryAt?_record_ne h
  · rfl

theorem isWritable_after : (p.after settings write s).isWritable settings =
    p.isWritable settings := by
  unfold after
  split
  · rw [isWritable, isWritable, removed_record]
  · rfl

theorem accepts_after (h : write'.target ≠ write.target) :
    (p.after settings write s).accepts settings write' s' = p.accepts settings write' s' := by
  refine accepts_congr ?_ ?_ (entryAt?_after h)
  · unfold after
    split
    · exact p.owner_apply (.write write s)
    · rfl
  · unfold after
    split
    · exact p.operation_apply (.write write s)
    · rfl

theorem can_after (h : write'.target ≠ write.target) :
    (p.after settings write s).can settings write' s' = p.can settings write' s' := by
  rw [can, can, isWritable_after, accepts_after h]

/-- On an open record a write is answered by whether it is accepted, if what it addresses is
there. -/
theorem answer_of_isWritable (hopen : p.isWritable settings = true)
    (hthere : (p.entryAt? write.target).isSome = true) :
    p.answer settings write s = .ok (.applied (p.accepts settings write s)) := by
  have hdeclared : p.ensureDeclared settings write = .ok () := by
    cases write with
    | parameter key v =>
        simp only [Write.target, entryAt?, Option.isSome_map] at hthere
        rw [ensureDeclared, if_pos hthere]
    | _ => rfl
  rw [answer, write_eq_ok_iff.2 ⟨hopen, hdeclared, rfl⟩]
  cases haccepts : p.accepts settings write s <;> rfl

/-- **A write is answered as if an independent one had not been there.** -/
theorem answer_after (h : write'.target ≠ write.target)
    (hthere : (p.entryAt? write'.target).isSome = true) :
    (p.after settings write s).answer settings write' s' = p.answer settings write' s' := by
  cases hopen : p.isWritable settings with
  | false =>
      -- Nothing is written to a closed record, so its errors stay the same.
      have hcan : ¬ p.can settings write s = true := by simp [can, hopen]
      rw [after, if_neg hcan]
  | true =>
      have hopen' : (p.after settings write s).isWritable settings = true := by
        rw [isWritable_after, hopen]
      have hthere' : ((p.after settings write s).entryAt? write'.target).isSome = true := by
        rw [entryAt?_after h, hthere]
      rw [answer_of_isWritable hopen hthere, answer_of_isWritable hopen' hthere', accepts_after h]

/-- Whether the second of two independent writes applies is told by the record before both. -/
theorem after_after (h : write'.target ≠ write.target) :
    (p.after settings write s).after settings write' s' =
      if p.can settings write' s' then (p.after settings write s).record write' s'
      else p.after settings write s := by
  rw [after, can_after h]

/-- **Independent writes do the same to a record** in either order. -/
theorem after_comm (h : write.target ≠ write'.target) :
    (p.after settings write s).after settings write' s' =
      (p.after settings write' s').after settings write s := by
  rw [after_after h.symm, after_after h, after, after]
  cases p.can settings write s with
  | true =>
      cases p.can settings write' s' with
      | true => exact record_comm h
      | false => rfl
  | false => rfl

end Procedure

/-! ## The records of a workspace -/

namespace Workspace

variable {w : Workspace} {ref ref' : ProcedureRef} {m : Model} {p q q' : Procedure}
  {settings settings' : ModelSettings} {write write' : Procedure.Write}

/-- A record, with the settings of its model. -/
def record? (w : Workspace) (ref : ProcedureRef) : Option (ModelSettings × Procedure) :=
  (w.procedure? ref).map fun found => (found.1.settings, found.2)

/-- The workspace with one model changed. -/
def modifyModel (w : Workspace) (i : ModelId) (change : Model → Model) : Workspace :=
  ⟨w.models.modify i change⟩

theorem modifyModel_eq {i : ModelId} (hm : w.model? i = some m) (change : Model → Model) :
    w.modifyModel i change = w.setModel i (change m) := by
  refine congrArg Workspace.mk (List.ext_getElem? fun j => ?_)
  rw [List.getElem?_modify, List.getElem?_set]
  by_cases hj : i = j
  · subst hj
    obtain ⟨hlt, rfl⟩ := List.getElem?_eq_some_iff.1 hm
    simp [hlt]
  · simp [hj]

/-- The workspace with another state of a record. -/
def setRecord (w : Workspace) (ref : ProcedureRef) (q : Procedure) : Workspace :=
  ⟨w.models.modify ref.model (·.setProcedure ref.id q)⟩

theorem setRecord_eq (hm : w.model? ref.model = some m) (q : Procedure) :
    w.setRecord ref q = w.setModel ref.model (m.setProcedure ref.id q) :=
  modifyModel_eq hm (·.setProcedure ref.id q)

/-- A record that is replaced is found, and no other record is touched. -/
theorem record?_setRecord (w : Workspace) (ref : ProcedureRef) (q : Procedure)
    (ref' : ProcedureRef) : (w.setRecord ref q).record? ref' =
      if ref' = ref then (w.record? ref).map fun found => (found.1, q) else w.record? ref' := by
  obtain ⟨i, j⟩ := ref
  obtain ⟨i', j'⟩ := ref'
  simp only [record?, procedure?, model?, setRecord, List.getElem?_modify, ProcedureRef.mk.injEq]
  by_cases hi : i = i'
  · subst hi
    cases w.models[i]? with
    | none => simp
    | some m =>
        by_cases hj : j = j'
        · subst hj
          cases hget : m.procedures[j]? <;>
            simp [Model.setProcedure, List.getElem?_set_self', hget]
        · cases hget : m.procedures[j']? <;>
            simp [Model.setProcedure, List.getElem?_set_ne hj, hget, Ne.symm hj]
  · simp [hi, Ne.symm hi]

theorem setRecord_setRecord (w : Workspace) (ref : ProcedureRef) (q q' : Procedure) :
    (w.setRecord ref q).setRecord ref q' = w.setRecord ref q' := by
  refine congrArg Workspace.mk (List.ext_getElem? fun i => ?_)
  simp only [setRecord, List.getElem?_modify]
  cases w.models[i]? with
  | none => rfl
  | some m =>
      by_cases hi : ref.model = i
      · simp [hi, Model.setProcedure]
      · simp [hi]

/-- **Records are replaced in either order.** -/
theorem setRecord_comm (w : Workspace) (h : ref ≠ ref') (q q' : Procedure) :
    (w.setRecord ref q).setRecord ref' q' = (w.setRecord ref' q').setRecord ref q := by
  refine congrArg Workspace.mk (List.ext_getElem? fun i => ?_)
  simp only [setRecord, List.getElem?_modify]
  cases w.models[i]? with
  | none => rfl
  | some m =>
      by_cases hi : ref.model = i
      · by_cases hi' : ref'.model = i
        · have hid : ref.id ≠ ref'.id := by
            intro heq
            cases ref
            cases ref'
            simp_all
          simp [hi, hi', Model.setProcedure, List.set_comm _ _ hid]
        · simp [hi, hi']
      · simp [hi]

theorem execute_write_record (hp : w.record? ref = some (settings, p)) (write : Procedure.Write)
    (s : Source) : w.execute (.write ref write s) =
      some (w.setRecord ref (p.after settings write s), p.answer settings write s) := by
  obtain ⟨⟨m, p'⟩, hp', heq⟩ := Option.map_eq_some_iff.1 hp
  cases heq
  rw [execute_write hp', setRecord_eq (procedure?_eq_some_iff.1 hp').1]

/-- On an open record a write whose target is there never fails: it is recorded, or it backs off. -/
theorem execute_write_open (hp : w.procedure? ref = some (m, p))
    (hopen : p.isWritable m.settings = true) (write : Procedure.Write)
    (hthere : (p.entryAt? write.target).isSome = true) (s : Source) :
    ∃ w', w.execute (.write ref write s) =
        some (w', .ok (.applied (p.accepts m.settings write s))) ∧
      (p.accepts m.settings write s = true →
        w' = w.setModel ref.model (m.setProcedure ref.id (p.record write s))) ∧
      (p.accepts m.settings write s = false → w' = w) := by
  have hanswer := Procedure.answer_of_isWritable (s := s) hopen hthere
  have hdoes := execute_write hp write s
  rw [hanswer] at hdoes
  refine ⟨_, hdoes, ?_, ?_⟩
  · intro hyes
    rw [hyes] at hanswer
    rw [Procedure.after_of_applied hanswer]
  · intro hno
    refine (negotiated_write hp write s).unchanged ?_
    rw [hanswer, hno]
    nofun

/-! ## Builders -/

/-- Whether a builder for a write is handed out: one for a parameter is when the record is open and
has the parameter. -/
def HandsOut (w : Workspace) (ref : ProcedureRef) : Procedure.Write → Prop
  | .parameter key _ => ∃ m p q, w.procedure? ref = some (m, p) ∧
      p.requireParameter m.settings key = .ok q
  | _ => ∃ m p, w.procedure? ref = some (m, p)

/-- Whether a builder for a write is held: a run from the empty workspace has come by a state that
hands it out. -/
def HoldsBuilder (w : Workspace) (ref : ProcedureRef) (write : Procedure.Write) : Prop :=
  ∃ past more v, FreeRun .empty past v ∧ FreeRun v more w ∧ v.HandsOut ref write

theorem entryAt?_of_handsOut (h : w.HandsOut ref write) :
    ∃ m p, w.procedure? ref = some (m, p) ∧ (p.entryAt? write.target).isSome = true := by
  cases write with
  | parameter key v =>
      obtain ⟨m, p, q, hp, hq⟩ := h
      refine ⟨m, p, hp, ?_⟩
      simp [Procedure.Write.target, Procedure.entryAt?, Procedure.requireParameter_eq_ok hq]
  | _ =>
      obtain ⟨m, p, hp⟩ := h
      exact ⟨m, p, hp, rfl⟩

/-- **What a builder addresses is there** as long as the builder is held. -/
theorem held_declared (h : w.HoldsBuilder ref write) :
    ∃ settings p, w.record? ref = some (settings, p) ∧ (p.entryAt? write.target).isSome = true := by
  obtain ⟨_, _, _, _, hmore, hout⟩ := h
  obtain ⟨m, p, hp, hthere⟩ := entryAt?_of_handsOut hout
  obtain ⟨m', p', hp', habove⟩ := Run.above hmore hp
  refine ⟨m'.settings, p', by rw [record?, hp', Option.map_some], ?_⟩
  cases write with
  | parameter key u =>
      simp only [Procedure.Write.target, Procedure.entryAt?, Option.isSome_map] at hthere ⊢
      obtain ⟨q, hq⟩ := Option.isSome_iff_exists.1 hthere
      obtain ⟨q', hq', _⟩ := habove.declared key q hq
      rw [hq']
      rfl
  | _ => rfl

/-! ## Either order -/

/-- Whether two commands are answered the same, and come to the same workspace, in either order. -/
def Commute (w : Workspace) (c c' : Command) : Prop :=
  ∃ v v' u a a', w.execute c = some (v, a) ∧ v.execute c' = some (u, a') ∧
    w.execute c' = some (v', a') ∧ v'.execute c = some (u, a)

/-- Writes to different records commute. -/
theorem commute_of_ref_ne (hp : w.record? ref = some (settings, p))
    (hp' : w.record? ref' = some (settings', q)) (h : ref ≠ ref') (write write' : Procedure.Write)
    (s s' : Source) : w.Commute (.write ref write s) (.write ref' write' s') := by
  have hafter : (w.setRecord ref (p.after settings write s)).record? ref' =
      some (settings', q) := by
    rw [record?_setRecord, if_neg h.symm, hp']
  have hafter' : (w.setRecord ref' (q.after settings' write' s')).record? ref =
      some (settings, p) := by
    rw [record?_setRecord, if_neg h, hp]
  refine ⟨_, _, _, _, _, execute_write_record hp write s, execute_write_record hafter write' s',
    execute_write_record hp' write' s', ?_⟩
  rw [execute_write_record hafter' write s, setRecord_comm w h]

/-- Writes to one record commute if their targets are different and there. -/
theorem commute_of_target_ne (hp : w.record? ref = some (settings, p))
    (hthere : (p.entryAt? write.target).isSome = true)
    (hthere' : (p.entryAt? write'.target).isSome = true) (h : write.target ≠ write'.target)
    (s s' : Source) : w.Commute (.write ref write s) (.write ref write' s') := by
  have hafter : (w.setRecord ref (p.after settings write s)).record? ref =
      some (settings, p.after settings write s) := by
    rw [record?_setRecord, if_pos rfl, hp]
    rfl
  have hafter' : (w.setRecord ref (p.after settings write' s')).record? ref =
      some (settings, p.after settings write' s') := by
    rw [record?_setRecord, if_pos rfl, hp]
    rfl
  have hsecond : (w.setRecord ref (p.after settings write s)).execute (.write ref write' s') =
      some (w.setRecord ref ((p.after settings write s).after settings write' s'),
        p.answer settings write' s') := by
    rw [execute_write_record hafter, Procedure.answer_after h.symm hthere', setRecord_setRecord]
  have hsecond' : (w.setRecord ref (p.after settings write' s')).execute (.write ref write s) =
      some (w.setRecord ref ((p.after settings write s).after settings write' s'),
        p.answer settings write s) := by
    rw [execute_write_record hafter', Procedure.answer_after h hthere, setRecord_setRecord,
      Procedure.after_comm h]
  exact ⟨_, _, _, _, _, execute_write_record hp write s, hsecond,
    execute_write_record hp write' s', hsecond'⟩

/-- **Independent writes commute**, at any sources, whether they apply, back off or fail. -/
theorem independent_writes_commute (h : w.HoldsBuilder ref write) (h' : w.HoldsBuilder ref' write')
    (hindependent : ref ≠ ref' ∨ write.target ≠ write'.target) (s s' : Source) :
    w.Commute (.write ref write s) (.write ref' write' s') := by
  obtain ⟨settings, p, hp, hthere⟩ := held_declared h
  obtain ⟨settings', p', hp', hthere'⟩ := held_declared h'
  by_cases hsame : ref = ref'
  · subst hsame
    cases hp.symm.trans hp'
    refine commute_of_target_ne hp hthere hthere' ?_ s s'
    exact hindependent.resolve_left fun hne => hne rfl
  · exact commute_of_ref_ne hp hp' hsame write write' s s'

/-- A record with a parameter. -/
def parametrized : List Step × Workspace :=
  (carryOn (fun _ _ => True) [] .empty
    [.createModel .standard, .addType 0 "Animal" none, .createRegistry 0,
      .set ⟨0, 0⟩ ⟨0, 0, "Animal"⟩ .insert,
      .bindSignature ⟨0, 0⟩ ⟨["id"]⟩ .explicit]).get rfl

/-- The name of the record and the store type of its parameter, in either order. -/
theorem independent_writes_commute_parametrized :
    parametrized.2.HoldsBuilder ⟨0, 0⟩ (.name (some "Upsert")) ∧
    parametrized.2.HoldsBuilder ⟨0, 0⟩ (.parameter "id" (.storeType (some "int"))) ∧
    parametrized.2.Commute (.write ⟨0, 0⟩ (.name (some "Upsert")) .explicit)
      (.write ⟨0, 0⟩ (.parameter "id" (.storeType (some "int"))) .convention) := by
  have hrun : FreeRun .empty parametrized.1 parametrized.2 :=
    Run.carryOn .nil (Option.some_get rfl).symm
  have hp : parametrized.2.procedure? ⟨0, 0⟩ = some _ := rfl
  have hname : parametrized.2.HoldsBuilder ⟨0, 0⟩ (.name (some "Upsert")) :=
    ⟨_, [], _, hrun, .nil, _, _, hp⟩
  have hparameter :
      parametrized.2.HoldsBuilder ⟨0, 0⟩ (.parameter "id" (.storeType (some "int"))) :=
    ⟨_, [], _, hrun, .nil, _, _, .declared "id" .explicit, hp, rfl⟩
  exact ⟨hname, hparameter,
    independent_writes_commute hname hparameter (.inr nofun) .explicit .convention⟩

end Workspace

end ProcedureMapping
