import ProcedureMapping.Proofs.Closed
import ProcedureMapping.Proofs.Hierarchy

/-!
# Finalization

Finalizing a model ends its build phase for good.  Whatever is called afterwards, on this model, on
its registries, through handles on its procedures or on other models, the model stays **frozen**:
its types, its hierarchy, its settings, the slots of its registries and its records are as they
were.  Only empty registries may still be added to it.

Each call that would write to the model fails, and with one error: a registry names a foreign
owner, a handle on a removed record reports the removal, and everything else reports the end of
the build phase.

Main statements:

* `Model.frozen_apply` — what a change leaves of a finalized model;
* `Run.frozen` — what a run leaves of it;
* `execute_finalized` — which error a write gives;
* `finalize_seals` — all of it, after any run.
-/

namespace ProcedureMapping

/-! ## Finalized settings -/

theorem ModelSettings.ensureWritable_final {settings : ModelSettings}
    (hfinal : settings.readOnly = true) (object : String) :
    settings.ensureWritable object = .error (.readOnlyModel object) := by
  rw [ensureWritable, if_pos hfinal]

/-- What a handle on a procedure of a finalized model reports: that the procedure is removed, or
else the end of the build phase. -/
def Procedure.closure (settings : ModelSettings) (p : Procedure) : Error :=
  if p.removed then .removedFromModel (p.displayName settings)
  else .readOnlyModel (p.displayName settings)

theorem Procedure.ensureWritable_final {settings : ModelSettings}
    (hfinal : settings.readOnly = true) (p : Procedure) :
    p.ensureWritable settings = .error (p.closure settings) := by
  unfold ensureWritable closure
  split
  · rfl
  · exact ModelSettings.ensureWritable_final hfinal _

/-! ## Frozen models -/

/-- Whether a change goes around the registries: it removes a record without emptying its slot, or
makes one without a slot. -/
def Model.Change.isStray : Model.Change → Bool
  | procedure _ .detach | stray .. => true
  | _ => false

/-- Whether a command is offered to other code at all.  Records are made and removed by the
registries only. -/
def Command.isOffered : Command → Bool
  | createProcedure .. | detach _ => false
  | _ => true

theorem Command.Makes.not_stray {c : Command} {i : ModelId} {e : Model.Change} (h : c.Makes i e)
    (hoffered : c.isOffered = true) : e.isStray = false := by
  cases h with
  | detach | createProcedure => cases hoffered
  | _ => rfl

namespace Model

/-- Whether everything in a model is as it was in `m`.  Registries may have been added to it, but
they are empty. -/
structure Frozen (m m' : Model) : Prop where
  id : m'.id = m.id
  settings : m'.settings = m.settings
  types : m'.types = m.types
  procedures : m'.procedures = m.procedures
  registry : ∀ r, m'.registry r = m.registry r

variable {m m' m'' : Model} {e : Change}

theorem Frozen.refl (m : Model) : m.Frozen m where
  id := rfl
  settings := rfl
  types := rfl
  procedures := rfl
  registry _ := rfl

theorem Frozen.trans (h : m.Frozen m') (h' : m'.Frozen m'') : m.Frozen m'' where
  id := h'.id.trans h.id
  settings := h'.settings.trans h.settings
  types := h'.types.trans h.types
  procedures := h'.procedures.trans h.procedures
  registry r := (h'.registry r).trans (h.registry r)

theorem Frozen.base? (h : m.Frozen m') (t : EntityRef) : m'.base? t = m.base? t :=
  base?_congr h.id h.types t

theorem Frozen.derived (h : m.Frozen m') (t : EntityRef) : m'.derived t = m.derived t := by
  simp only [Model.derived, ref?, h.id, h.types]

/-- **What a change leaves of a finalized model**: it stays frozen, as all that is allowed is to
finalize it again and to add a registry. -/
theorem frozen_apply (hfinal : m.settings.readOnly = true) (hallowed : m.Allows e)
    (hstray : e.isStray = false) : m.Frozen (m.apply e) := by
  have hclosed : ¬ m.settings.readOnly = false := by simp [hfinal]
  cases e with
  | type name base => exact absurd hallowed.1 hclosed
  | annotations i entry annotations => exact absurd hallowed.1 hclosed
  | defaultSchema schema s => exact absurd hallowed.1 hclosed
  | create r owner op s => exact absurd hallowed.2.1 hclosed
  | vacate r owner op s => exact absurd hallowed.2.1 hclosed
  | stray owner op s => cases hstray
  | finalize =>
      have hsettings : { m.settings with readOnly := true } = m.settings := by rw [← hfinal]
      exact ⟨rfl, hsettings, rfl, rfl, fun _ => rfl⟩
  | registry => exact ⟨rfl, rfl, rfl, rfl, m.registry_addRegistry⟩
  | procedure i change =>
      obtain ⟨p, _, hchange⟩ := hallowed
      have hclosed := p.ensureWritable_final hfinal
      obtain rfl := Procedure.eq_detach_of_closed hclosed hchange
      cases hstray

/-! ## What a finalized model answers -/

theorem addType_final (hfinal : m.settings.readOnly = true) (name : String)
    (base : Option EntityRef) : m.addType name base = .error (.readOnlyModel name) := by
  rw [addType, ModelSettings.ensureWritable_final hfinal]
  rfl

theorem requireEntry_final (hfinal : m.settings.readOnly = true) (t : EntityRef) :
    m.requireEntry t = .error (.readOnlyModel t.name) := by
  rw [requireEntry, ModelSettings.ensureWritable_final hfinal]
  rfl

theorem annotate_final (hfinal : m.settings.readOnly = true) (t : EntityRef) (name : String)
    (value : Json.Value) (s : Source) :
    m.annotate t name value s = .error (.readOnlyModel t.name) := by
  rw [annotate, requireEntry_final hfinal]
  rfl

theorem unannotate_final (hfinal : m.settings.readOnly = true) (t : EntityRef) (name : String)
    (s : Source) : m.unannotate t name s = .error (.readOnlyModel t.name) := by
  rw [unannotate, requireEntry_final hfinal]
  rfl

theorem setDefaultSchema_final (hfinal : m.settings.readOnly = true) (schema : Option String)
    (s : Source) :
    m.setDefaultSchema schema s = .error (.readOnlyModel "model default schema") := by
  rw [setDefaultSchema, ModelSettings.ensureWritable_final hfinal]
  rfl

/-- What a registry of a finalized model reports: a foreign owner, or else the end of the build
phase. -/
def closure (m : Model) (owner : EntityRef) (op : Operation) : Error :=
  if owner.model = m.id then .readOnlyModel (owner.name ++ " " ++ op.name ++ " stored procedure")
  else .unknownEntityType owner.name

theorem ensureRegistrable_final (hfinal : m.settings.readOnly = true) (owner : EntityRef)
    (op : Operation) : m.ensureRegistrable owner op = .error (m.closure owner op) := by
  unfold ensureRegistrable closure
  split
  · exact ModelSettings.ensureWritable_final hfinal _
  · rfl

theorem set_final (hfinal : m.settings.readOnly = true) (r : RegistryId) (owner : EntityRef)
    (op : Operation) : m.set r owner op = .error (m.closure owner op) := by
  rw [set, ensureRegistrable_final hfinal]
  rfl

theorem setConvention_final (hfinal : m.settings.readOnly = true) (r : RegistryId) (h : Model)
    (owner : EntityRef) (op : Operation) (s : Source) :
    m.setConvention r h owner op s = .error (m.closure owner op) := by
  rw [setConvention, ensureRegistrable_final hfinal]
  rfl

theorem remove_final (hfinal : m.settings.readOnly = true) (r : RegistryId) (owner : EntityRef)
    (op : Operation) : m.remove r owner op = .error (m.closure owner op) := by
  rw [remove, ensureRegistrable_final hfinal]
  rfl

theorem removeConvention_final (hfinal : m.settings.readOnly = true) (r : RegistryId)
    (owner : EntityRef) (op : Operation) (s : Source) :
    m.removeConvention r owner op s = .error (m.closure owner op) := by
  rw [removeConvention, ensureRegistrable_final hfinal]
  rfl

end Model

/-! ## Commands -/

/-- The model that a command writes to: its types, its settings, the slots of its registries or its
procedures. -/
def Command.subject? : Command → Option ModelId
  | addType i .. | annotate i .. | unannotate i .. | setDefaultSchema i .. => some i
  | set reg .. | setUsing reg .. | setConvention reg .. | remove reg ..
  | removeConvention reg .. => some reg.model
  | configure ref _ | suggest ref .. | suggestSignature ref .. | write ref ..
  | bindSignature ref .. | restamp ref _ => some ref.model
  | createModel _ | finalize _ | createRegistry _ | createProcedure .. | detach _ => none

/-- The model along whose hierarchy a command looks. -/
def Command.hierarchy? : Command → Option ModelId
  | setConvention _ h .. => some h
  | _ => none

namespace Workspace

variable {w w' w₁ w₂ : Workspace} {c : Command} {i : ModelId} {m m' : Model} {steps : List Step}

/-- Whether a workspace holds the record and the hierarchy that a command names, if any. -/
structure Holding (w : Workspace) (c : Command) : Prop where
  record : ∀ ref, c.handle? = some ref → (w.procedure? ref).isSome = true
  hierarchy : ∀ h, c.hierarchy? = some h → (w.model? h).isSome = true

/-- What a write reports once its model is finalized.  There is none where the write names a
record or a hierarchy that the workspace does not hold. -/
def closure? (w : Workspace) : Command → Option Error
  | .addType _ name _ => some (.readOnlyModel name)
  | .annotate _ t .. | .unannotate _ t .. => some (.readOnlyModel t.name)
  | .setDefaultSchema .. => some (.readOnlyModel "model default schema")
  | .set reg owner op | .setUsing reg owner op _ | .remove reg owner op
  | .removeConvention reg owner op _ => (w.model? reg.model).map (·.closure owner op)
  | .setConvention reg h owner op _ =>
      (w.model? h).bind fun _ => (w.model? reg.model).map (·.closure owner op)
  | .configure ref _ | .suggest ref .. | .suggestSignature ref .. | .write ref ..
  | .bindSignature ref .. | .restamp ref _ =>
      (w.procedure? ref).map fun (m, p) => p.closure m.settings
  | .createModel _ | .finalize _ | .createRegistry _ | .createProcedure .. | .detach _ => none

theorem changeModel_error {change : Model → Except Error (Outcome × Model)} {x : Error}
    (hm : w.model? i = some m) (h : change m = .error x) :
    w.changeModel i change = some (w, .error x) := by
  simp only [changeModel, hm, h]

theorem changeRegistry_error {reg : RegistryRef} {x : Error}
    {change : Model → Except Error (Option ProcedureId × Model)}
    (hm : w.model? reg.model = some m) (h : change m = .error x) :
    w.changeRegistry reg change = some (w, .error x) := by
  refine changeModel_error hm ?_
  rw [h]
  rfl

/-- A call through a handle on a procedure of a finalized model. -/
theorem execute_handle_final {ref : ProcedureRef} (hm : w.model? ref.model = some m)
    (hfinal : m.settings.readOnly = true) (hhandle : c.handle? = some ref) :
    w.execute c = ((w.procedure? ref).map fun (m, p) => p.closure m.settings).map
      fun x => (w, .error x) := by
  cases hp : w.procedure? ref with
  | none =>
      cases c with simp only [Command.handle?, Option.some.injEq, reduceCtorEq] at hhandle
      | _ =>
          subst hhandle
          simp only [execute, changeProcedure, hp, Option.map_none]
  | some found =>
      obtain ⟨n, p⟩ := found
      have hsame : n = m := Option.some.inj ((procedure?_eq_some_iff.1 hp).1.symm.trans hm)
      subst hsame
      exact execute_closed hp (p.ensureWritable_final hfinal) hhandle

/-- **Which error a write gives** to a finalized model; it changes nothing. -/
theorem execute_finalized (hm : w.model? i = some m) (hfinal : m.settings.readOnly = true)
    (hsubject : c.subject? = some i) :
    w.execute c = (w.closure? c).map fun x => (w, .error x) := by
  have hset : ∀ {reg : RegistryRef} {owner : EntityRef} {op : Operation},
      w.model? reg.model = some m → w.set reg owner op = some (w, .error (m.closure owner op)) := by
    intro reg owner op hm
    exact changeRegistry_error hm (by rw [m.set_final hfinal]; rfl)
  cases c with simp only [Command.subject?, Option.some.injEq, reduceCtorEq] at hsubject
  | addType j name base =>
      subst hsubject
      exact changeModel_error hm (by rw [m.addType_final hfinal]; rfl)
  | annotate j t name value s =>
      subst hsubject
      exact changeModel_error hm (by rw [m.annotate_final hfinal]; rfl)
  | unannotate j t name s =>
      subst hsubject
      exact changeModel_error hm (by rw [m.unannotate_final hfinal]; rfl)
  | setDefaultSchema j schema s =>
      subst hsubject
      exact changeModel_error hm (by rw [m.setDefaultSchema_final hfinal]; rfl)
  | set reg owner op =>
      subst hsubject
      simp only [execute, closure?, hm, Option.map_some]
      exact hset hm
  | setUsing reg owner op statements =>
      subst hsubject
      simp only [execute, closure?, hm, Option.map_some, hset hm]
  | setConvention reg h owner op da =>
      subst hsubject
      cases hh : w.model? h with
      | none => simp only [execute, closure?, hh, Option.bind_none, Option.map_none]
      | some n =>
          simp only [execute, closure?, hh, hm, Option.bind_some, Option.map_some]
          exact changeRegistry_error hm (by rw [m.setConvention_final hfinal]; rfl)
  | remove reg owner op =>
      subst hsubject
      simp only [execute, closure?, hm, Option.map_some]
      exact changeRegistry_error hm (m.remove_final hfinal reg.id owner op)
  | removeConvention reg owner op da =>
      subst hsubject
      simp only [execute, closure?, hm, Option.map_some]
      exact changeRegistry_error hm (m.removeConvention_final hfinal reg.id owner op _)
  | _ =>
      subst hsubject
      exact execute_handle_final hm hfinal rfl

/-- A write always has something to report, where it names nothing unknown. -/
theorem closure?_isSome (hm : w.model? i = some m) (hsubject : c.subject? = some i)
    (hholding : w.Holding c) : (w.closure? c).isSome = true := by
  cases c with simp only [Command.subject?, Option.some.injEq, reduceCtorEq] at hsubject
  | addType | annotate | unannotate | setDefaultSchema => rfl
  | set | setUsing | remove | removeConvention =>
      subst hsubject
      simp only [closure?, hm, Option.map_some, Option.isSome_some]
  | setConvention reg h owner op da =>
      subst hsubject
      obtain ⟨n, hn⟩ := Option.isSome_iff_exists.1 (hholding.hierarchy h rfl)
      simp only [closure?, hn, hm, Option.bind_some, Option.map_some, Option.isSome_some]
  | _ =>
      have hrecord := hholding.record _ rfl
      simpa only [closure?, Option.isSome_map] using hrecord

/-! ## Runs -/

theorem Effect.frozen (h : w.Effect c w') (hoffered : c.isOffered = true)
    (hm : w.model? i = some m) (hfinal : m.settings.readOnly = true) :
    ∃ m', w'.model? i = some m' ∧ m.Frozen m' := by
  rcases h.model_after hm with hsame | ⟨e, hmakes, hallowed, hm'⟩
  · exact ⟨m, hsame, .refl m⟩
  · have hstray : e.isStray = false := hmakes.not_stray hoffered
    exact ⟨m.apply e, hm', Model.frozen_apply hfinal hallowed hstray⟩

/-- **What a run leaves of a finalized model**: everything. -/
theorem Run.frozen (h : Run (fun _ c => c.isOffered = true) w steps w')
    (hm : w.model? i = some m) (hfinal : m.settings.readOnly = true) :
    ∃ m', w'.model? i = some m' ∧ m.Frozen m' := by
  induction h with
  | nil => exact ⟨m, hm, .refl m⟩
  | snoc _ single allowed does ih =>
      obtain ⟨m₁, hm₁, hfrozen₁⟩ := ih
      have hfinal₁ : m₁.settings.readOnly = true := by rw [hfrozen₁.settings, hfinal]
      obtain ⟨m₂, hm₂, hfrozen₂⟩ := (execute_effect single does).frozen allowed hm₁ hfinal₁
      exact ⟨m₂, hm₂, hfrozen₁.trans hfrozen₂⟩

/-- Whether a workspace has the model `i` as it was finalized, and closed to every write. -/
structure Sealed (w : Workspace) (i : ModelId) (m m' : Model) : Prop where
  found : w.model? i = some m'
  frozen : m.finalize.Frozen m'
  hierarchy : ∀ t, m'.base? t = m.base? t ∧ m'.root t = m.root t ∧ m'.derived t = m.derived t
  readOnly : m'.settings.readOnly = true
  refused : ∀ c, c.subject? = some i → w.Holding c →
    ∃ x, w.closure? c = some x ∧ w.execute c = some (w, .error x)
  unable : ∀ p ∈ m'.procedures, p.isWritable m'.settings = false ∧
    (∀ write s, p.can m'.settings write s = false) ∧
    ∀ name, p.requireParameter m'.settings name = .error (p.closure m'.settings)

/-- **Finalization seals a model**: it ends the build phase and changes nothing else, and so it
stays through any run of any commands that are offered. -/
theorem finalize_seals {a : Except Error Outcome}
    (hfinalize : w.execute (.finalize i) = some (w₁, a))
    (hrun : Run (fun _ c => c.isOffered = true) w₁ steps w₂) :
    ∃ m m₂, w.model? i = some m ∧ w₁ = w.setModel i m.finalize ∧ m.Completed m.finalize ∧
      Sealed w₂ i m m₂ := by
  simp only [execute] at hfinalize
  obtain ⟨m, hm, ⟨o, m₁, hdone, hw₁⟩ | ⟨x, hfail, _⟩⟩ := changeModel_eq_some hfinalize
  · cases hdone
    cases hw₁
    have hm₁ : (w.setModel i m.finalize).model? i = some m.finalize := by
      rw [model?_setModel hm, if_pos rfl]
    obtain ⟨m₂, hm₂, hfrozen⟩ := hrun.frozen hm₁ rfl
    have hfinal : m₂.settings.readOnly = true := by
      rw [hfrozen.settings]
      rfl
    have hbase : ∀ t, m₂.base? t = m.base? t := hfrozen.base?
    refine ⟨m, m₂, hm, rfl, m.completed_finalize, hm₂, hfrozen, ?_, hfinal, ?_, ?_⟩
    · intro t
      exact ⟨hbase t, Model.climb_congr hbase t.id t, hfrozen.derived t⟩
    · intro c hsubject hholding
      obtain ⟨x, hx⟩ := Option.isSome_iff_exists.1 (closure?_isSome hm₂ hsubject hholding)
      have hdoes := execute_finalized hm₂ hfinal hsubject
      rw [hx] at hdoes
      exact ⟨x, hx, hdoes⟩
    · intro p _
      have hclosed := p.ensureWritable_final hfinal
      exact ⟨Procedure.isWritable_closed hclosed, Procedure.can_closed hclosed,
        Procedure.requireParameter_closed hclosed⟩
  · cases hfail

/-- A workspace with two models.  The first has a removed procedure and one in its slot. -/
def mapped : List Step × Workspace :=
  (carryOn (IsOpen []) [] .empty
    [.createModel .standard, .createModel .standard, .addType 0 "Blog" none,
      .addType 1 "Post" none, .createRegistry 0, .set ⟨0, 0⟩ ⟨0, 0, "Blog"⟩ .insert,
      .remove ⟨0, 0⟩ ⟨0, 0, "Blog"⟩ .insert, .set ⟨0, 0⟩ ⟨0, 0, "Blog"⟩ .insert]).get rfl

/-- The same with the first model finalized. -/
def ended : Workspace := ((mapped.2.execute (.finalize 0)).get rfl).1

/-- Calls after that: on the procedures, on the registry and on the model itself, and on the other
model. -/
def belated : List Step × Workspace :=
  (carryOn (fun _ c => c.isOffered = true) [] ended
    [.configure ⟨0, 0⟩ .defaultName, .configure ⟨0, 1⟩ .defaultName,
      .set ⟨0, 0⟩ ⟨1, 0, "Post"⟩ .insert, .remove ⟨0, 0⟩ ⟨0, 0, "Blog"⟩ .insert,
      .addType 0 "Tag" none, .addType 1 "Tag" none]).get rfl

/-- Only the call on the other model succeeds. -/
theorem finalize_seals_belated :
    (∃ m m₂, mapped.2.model? 0 = some m ∧ ended = mapped.2.setModel 0 m.finalize ∧
      m.Completed m.finalize ∧ Sealed belated.2 0 m m₂) ∧
    belated.1.map (·.answer) =
      [.error (.removedFromModel "Blog_Insert"), .error (.readOnlyModel "Blog_Insert"),
        .error (.unknownEntityType "Post"),
        .error (.readOnlyModel "Blog Insert stored procedure"),
        .error (.readOnlyModel "Tag"), .ok (.type ⟨1, 1, "Tag"⟩)] := by
  have hfinalize : mapped.2.execute (.finalize 0) = some (ended, .ok .done) := rfl
  have hrun : Run (fun _ c => c.isOffered = true) ended belated.1 belated.2 :=
    Run.carryOn .nil (Option.some_get rfl).symm
  exact ⟨finalize_seals hfinalize hrun, rfl⟩

end Workspace

end ProcedureMapping
