import ProcedureMapping.Proofs.Attempts
import ProcedureMapping.Proofs.Provenance
import ProcedureMapping.Proofs.Signatures

/-!
# Tracked attributes

The store type and the type mapping of a parameter and the default schema of a model are tracked
values.  They are reached by different calls and through different guards, but whatever is done in
between, the calls that get through act on them as attempts on a tracked value do: the last one at
the strongest source is recorded.  While the procedure is writable, or the model is not finalized,
every call gets through.

A default schema that the configuration of a model brings is there before all calls, and it is
explicit.  So only explicit calls ever change it.

Main statements:

* `step_aspect`, `Run.aspect_after` — what a step and what a run does to a tracked value of a
  parameter;
* `step_defaultAttempts`, `Run.defaultAttempts_after`, `Run.defaultAttempts_made` — the same for the
  default schema of a model;
* `tracked_values` — the tracked values of every run.
-/

namespace ProcedureMapping

/-! ## Aspects of parameters -/

/-- A tracked value that parameters have, and the writes that are about it. -/
structure Parameter.Aspect (α : Type) [BEq α] where
  of : Parameter → Tracked α
  value? : Parameter.Write → Option α
  of_record : ∀ {q v a s}, value? v = some a → of (q.record v s) = (of q).set a s
  of_record_other : ∀ {q v s}, value? v = none → of (q.record v s) = of q
  accepts : ∀ {q v a s}, value? v = some a → q.accepts v s = (of q).accepts a s

namespace Parameter.Aspect

def storeType : Aspect (Option String) where
  of := Parameter.storeType
  value?
    | .storeType value => some value
    | _ => none
  of_record {_ v _ _} h := by
    cases v with
    | storeType =>
        cases h
        rfl
    | _ => cases h
  of_record_other {_ v _} h := by
    cases v with
    | storeType => cases h
    | _ => rfl
  accepts {_ v _ _} h := by
    cases v with
    | storeType =>
        cases h
        rfl
    | _ => cases h

def typeMapping : Aspect (Option TypeMapping) where
  of := Parameter.typeMapping
  value?
    | .typeMapping mapping => some mapping
    | _ => none
  of_record {_ v _ _} h := by
    cases v with
    | typeMapping =>
        cases h
        rfl
    | _ => cases h
  of_record_other {_ v _} h := by
    cases v with
    | typeMapping => cases h
    | _ => rfl
  accepts {_ v _ _} h := by
    cases v with
    | typeMapping =>
        cases h
        rfl
    | _ => cases h

variable {α : Type} [BEq α] (aspect : Aspect α)

/-- What a write to a procedure attempts for the parameter `key`. -/
def attempted? (key : String) : Procedure.Write → Option α
  | .parameter other v => if other = key then aspect.value? v else none
  | _ => none

/-- The attempts on the parameter `key` among the steps, but for those that were refused. -/
def attempts (ref : ProcedureRef) (key : String) (steps : List Step) : List (Attempt α) :=
  steps.filterMap fun s => (s.request? ref).bind fun (write, source) =>
    (aspect.attempted? key write).map fun a => ⟨a, source⟩

variable {aspect}

theorem attempts_append (ref : ProcedureRef) (key : String) (steps : List Step) (s : Step) :
    aspect.attempts ref key (steps ++ [s]) =
      aspect.attempts ref key steps ++ aspect.attempts ref key [s] :=
  List.filterMap_append

theorem attempts_single (ref : ProcedureRef) (key : String) (s : Step) :
    aspect.attempts ref key [s] = ((s.request? ref).bind fun (write, source) =>
      (aspect.attempted? key write).map fun a => (⟨a, source⟩ : Attempt α)).toList := by
  rw [attempts, List.filterMap_cons, List.filterMap_nil]
  cases (s.request? ref).bind fun (write, source) =>
    (aspect.attempted? key write).map fun a => (⟨a, source⟩ : Attempt α) <;> rfl

end Parameter.Aspect

namespace Procedure

variable {p : Procedure} {key : String} {q : Parameter}

/-- A parameter after a call: it is written where the call is for it and is accepted. -/
theorem findParameter?_heed (settings : ModelSettings) (hq : p.findParameter? key = some q)
    (write : Write) (s : Source) :
    (p.heed settings write s).findParameter? key = some
      (match write with
        | .parameter other v => if other = key ∧ q.accepts v s = true then q.record v s else q
        | _ => q) := by
  cases write with
  | parameter other v =>
      by_cases hkey : other = key
      · subst hkey
        have haccepts : p.accepts settings (.parameter other v) s = q.accepts v s := by
          rw [accepts, hq, Option.any_some]
        rw [heed, haccepts]
        cases hyes : q.accepts v s with
        | false => simpa [hyes] using hq
        | true => simp [findParameter?_record, hq, hyes]
      · unfold heed
        split
        · simp [findParameter?_record, hq, hkey, Ne.symm hkey]
        · simpa [hkey] using hq
  | _ =>
      unfold heed
      split <;> exact hq

/-- **One call is one attempt** on the parameter that it is for. -/
theorem aspect_heed {α : Type} [BEq α] (settings : ModelSettings) (aspect : Parameter.Aspect α)
    (hq : p.findParameter? key = some q) (write : Write) (s : Source) :
    ∃ q', (p.heed settings write s).findParameter? key = some q' ∧ aspect.of q' =
      (aspect.of q).attemptAll ((aspect.attempted? key write).map fun a => ⟨a, s⟩).toList := by
  refine ⟨_, findParameter?_heed settings hq write s, ?_⟩
  cases write with
  | parameter other v =>
      by_cases hkey : other = key
      · subst hkey
        simp only [Parameter.Aspect.attempted?, if_true, true_and]
        cases hv : aspect.value? v with
        | none =>
            have hkept : aspect.of (if q.accepts v s = true then q.record v s else q) =
                aspect.of q := by
              split
              · exact aspect.of_record_other hv
              · rfl
            exact hkept
        | some a =>
            have haccepts : q.accepts v s = (aspect.of q).accepts a s := aspect.accepts hv
            simp only [Option.map_some, Option.toList_some, Tracked.attemptAll, List.foldl_cons,
              List.foldl_nil, Tracked.attempt, Tracked.write?, haccepts]
            split
            · exact aspect.of_record hv
            · rfl
      · simp [Parameter.Aspect.attempted?, hkey, Tracked.attemptAll]
  | _ => rfl

end Procedure

/-! ## Attempts on default schemas -/

/-- The attempt of a step on the default schema of the model `i`, unless it was refused. -/
def Step.defaultAttempt? (i : ModelId) (s : Step) : Option (Attempt (Option String)) :=
  match s.command, s.answer with
  | .setDefaultSchema j schema source, .ok _ => if j = i then some ⟨schema, source⟩ else none
  | _, _ => none

/-- The attempts on the default schema of the model `i` among the steps. -/
def defaultAttempts (i : ModelId) (steps : List Step) : List (Attempt (Option String)) :=
  steps.filterMap (Step.defaultAttempt? i)

theorem defaultAttempts_append (i : ModelId) (steps : List Step) (s : Step) :
    defaultAttempts i (steps ++ [s]) = defaultAttempts i steps ++ defaultAttempts i [s] :=
  List.filterMap_append

theorem Step.defaultAttempt?_eq_some {i : ModelId} {s : Step} {b : Attempt (Option String)}
    (h : s.defaultAttempt? i = some b) :
    s.command = .setDefaultSchema i b.value b.source ∧ ∃ o, s.answer = .ok o := by
  unfold defaultAttempt? at h
  split at h
  · next j schema source o hc ha =>
      obtain ⟨rfl, heq⟩ := Option.ite_none_right_eq_some.1 h
      cases heq
      exact ⟨hc, o, ha⟩
  · cases h

theorem defaultAttempts_eq_nil {i : ModelId} {s : Step}
    (h : ∀ schema source o, s.command = .setDefaultSchema i schema source → s.answer ≠ .ok o) :
    defaultAttempts i [s] = [] := by
  have hnone : s.defaultAttempt? i = none := by
    rw [Option.eq_none_iff_forall_ne_some]
    intro b hb
    obtain ⟨hc, o, ha⟩ := Step.defaultAttempt?_eq_some hb
    exact h _ _ o hc ha
  rw [defaultAttempts, List.filterMap_cons, hnone, List.filterMap_nil]

theorem Model.setDefaultSchema_open {m : Model} (hopen : m.settings.readOnly = false)
    {schema : Option String} {s : Source} : m.setDefaultSchema schema s =
      .ok (m.settings.defaultSchema.accepts schema s,
        { m with settings :=
          { m.settings with defaultSchema := m.settings.defaultSchema.attempt ⟨schema, s⟩ } }) := by
  have hcheck : m.settings.ensureWritable "model default schema" = .ok () :=
    ModelSettings.ensureWritable_eq_ok_iff.2 hopen
  simp only [setDefaultSchema, hcheck, bind, Except.bind, Tracked.attempt, Tracked.write?]
  cases m.settings.defaultSchema.accepts schema s <;> rfl

namespace Workspace

variable {w w' : Workspace} {c : Command} {a : Except Error Outcome} {ref : ProcedureRef}
  {i : ModelId} {m m' : Model} {p p' : Procedure} {key : String} {q : Parameter}
  {steps past : List Step}

/-! ## Parameters -/

/-- A parameter that nothing was asked of stays as it is: no signature is bound any more. -/
theorem Effect.parameter_unasked (h : w.Effect c w') (hreq : c.request? ref = none)
    (hp : w.procedure? ref = some (m, p)) (hq : p.findParameter? key = some q) :
    ∃ m' p', w'.procedure? ref = some (m', p') ∧ p'.findParameter? key = some q := by
  obtain ⟨_, hget⟩ := procedure?_eq_some_iff.1 hp
  obtain ⟨m', p', hp', hafter⟩ := h.procedure_after hp
  refine ⟨m', p', hp', ?_⟩
  rcases hafter with ⟨_, rfl⟩ | ⟨e, hmakes, hallowed, _, rfl | ⟨change, hacts, rfl⟩⟩
  · exact hq
  · exact hq
  · cases hacts with
    | vacate => exact hq
    | procedure =>
        cases change with
        | write write s =>
            rw [hmakes.request] at hreq
            cases hreq
        | bind signature s =>
            -- Where there is a parameter, a signature has been bound.
            have hfree := (hallowed.procedure hget).unbound.1
            have hmem := (Procedure.findParameter?_eq_some hq).1
            rw [p.unbound hfree] at hmem
            cases hmem
        | raise | detach => exact hq

section Aspect

variable {α : Type} [BEq α]

/-- **A parameter after a step** has seen the attempt of the step, if there is one. -/
theorem step_aspect (aspect : Parameter.Aspect α) (hsingle : c.isSingle = true)
    (does : w.execute c = some (w', a)) (hp : w.procedure? ref = some (m, p))
    (hq : p.findParameter? key = some q) :
    ∃ m' p' q', w'.procedure? ref = some (m', p') ∧ p'.findParameter? key = some q' ∧
      aspect.of q' = (aspect.of q).attemptAll (aspect.attempts ref key [⟨c, a⟩]) := by
  rw [Parameter.Aspect.attempts_single]
  cases a with
  | error x =>
      obtain rfl := execute_error hsingle does
      exact ⟨m, p, q, hp, hq, rfl⟩
  | ok o =>
      have hstep : Step.request? ref ⟨c, .ok o⟩ = c.request? ref := rfl
      rw [hstep]
      cases hreq : c.request? ref with
      | none =>
          obtain ⟨m', p', hp', hq'⟩ :=
            (execute_effect hsingle does).parameter_unasked hreq hp hq
          exact ⟨m', p', q, hp', hq', rfl⟩
      | some request =>
          obtain ⟨write, s⟩ := request
          obtain ⟨q', hq', hof⟩ := Procedure.aspect_heed m.settings aspect hq write s
          rw [execute_request hreq does hp]
          exact ⟨_, _, q', procedure?_setProcedure hp _, hq', hof⟩

/-- **A parameter after a run** has seen the attempts of the run. -/
theorem Run.aspect_after (aspect : Parameter.Aspect α) (h : FreeRun w steps w')
    (hp : w.procedure? ref = some (m, p)) (hq : p.findParameter? key = some q) :
    ∃ m' p' q', w'.procedure? ref = some (m', p') ∧ p'.findParameter? key = some q' ∧
      aspect.of q' = (aspect.of q).attemptAll (aspect.attempts ref key steps) := by
  induction h with
  | nil => exact ⟨m, p, q, hp, hq, rfl⟩
  | @snoc steps v v' c a _ single _ does ih =>
      obtain ⟨m₁, p₁, q₁, hp₁, hq₁, hof₁⟩ := ih
      obtain ⟨m₂, p₂, q₂, hp₂, hq₂, hof₂⟩ := step_aspect aspect single does hp₁ hq₁
      refine ⟨m₂, p₂, q₂, hp₂, hq₂, ?_⟩
      rw [Parameter.Aspect.attempts_append, Tracked.attemptAll_append, ← hof₁, hof₂]

end Aspect

/-- While a procedure stays writable, no call for a parameter that it has is refused. -/
theorem Run.parameter_heard (h : FreeRun w steps w') (hp : w.procedure? ref = some (m, p))
    (hq : p.findParameter? key = some q) (hp' : w'.procedure? ref = some (m', p'))
    (hopen : p'.isWritable m'.settings = true)
    {step : Step} (hstep : step ∈ steps) {v : Parameter.Write} {s : Source}
    (hreq : step.command.request? ref = some (.parameter key v, s)) :
    ∃ o, step.answer = .ok o := by
  induction h generalizing m' p' with
  | nil => cases hstep
  | @snoc steps v v' c a before single _ does ih =>
      obtain ⟨m₁, p₁, hp₁, habove⟩ := Run.above before hp
      obtain ⟨q₁, hq₁, _⟩ := habove.declared key q hq
      have hopen₁ := writable_before (execute_effect single does) hp₁ hp' hopen
      rcases List.mem_append.1 hstep with hold | hlast
      · exact ih hp₁ hopen₁ hold
      · rw [List.mem_singleton.1 hlast] at hreq ⊢
        obtain ⟨_, o, hdoes⟩ := execute_parameter_open hp₁ hopen₁ (by rw [hq₁]; rfl) hreq
        rw [does, Option.some.injEq, Prod.mk.injEq] at hdoes
        exact ⟨o, hdoes.2⟩

/-! ## Default schemas -/

/-- A change of a default schema is not refused before the model is finalized. -/
theorem execute_defaultSchema_open (hm : w.model? i = some m)
    (hopen : m.settings.readOnly = false) (schema : Option String) (s : Source) :
    ∃ w', w.execute (.setDefaultSchema i schema s) =
      some (w', .ok (.applied (m.settings.defaultSchema.accepts schema s))) := by
  simp only [execute, changeModel, hm, Model.setDefaultSchema_open hopen, Except.map]
  exact ⟨_, rfl⟩

/-- **The default schema after a step** has seen the attempt of the step, if there is one. -/
theorem step_defaultAttempts (hsingle : c.isSingle = true) (does : w.execute c = some (w', a))
    (hm : w.model? i = some m) : ∃ m', w'.model? i = some m' ∧
      m'.settings.config = m.settings.config ∧ m'.settings.defaultSchema =
        m.settings.defaultSchema.attemptAll (defaultAttempts i [⟨c, a⟩]) := by
  obtain ⟨m', hm', hconfig⟩ : ∃ m', w'.model? i = some m' ∧
      m'.settings.config = m.settings.config := by
    rcases (execute_effect hsingle does).model_after hm with hsame | ⟨e, _, _, hafter⟩
    · exact ⟨m, hsame, rfl⟩
    · exact ⟨_, hafter, m.config_apply e⟩
  refine ⟨m', hm', hconfig, ?_⟩
  by_cases hattempt : ∃ schema s o, c = .setDefaultSchema i schema s ∧ a = .ok o
  · obtain ⟨schema, s, o, rfl, rfl⟩ := hattempt
    have hone : defaultAttempts i [⟨.setDefaultSchema i schema s, .ok o⟩] = [⟨schema, s⟩] := by
      simp [defaultAttempts, Step.defaultAttempt?]
    rw [hone, Tracked.attemptAll, List.foldl_cons, List.foldl_nil, Tracked.attempt, Tracked.write?]
    obtain ⟨n, hn, ⟨_, haccepts, rfl⟩ | ⟨_, hrejects, rfl⟩⟩ := execute_setDefaultSchema does
    · obtain rfl : n = m := Option.some.inj (hn.symm.trans hm)
      rw [model?_setModel hn, if_pos rfl] at hm'
      obtain rfl := Option.some.inj hm'
      rw [haccepts]
      rfl
    · obtain rfl : n = m := Option.some.inj (hn.symm.trans hm)
      obtain rfl : n = m' := Option.some.inj (hn.symm.trans hm')
      rw [hrejects]
      rfl
  · have hnone : defaultAttempts i [⟨c, a⟩] = [] :=
      defaultAttempts_eq_nil fun schema s o hc ha => hattempt ⟨schema, s, o, hc, ha⟩
    rw [hnone]
    rcases step_default hsingle does hm hm' with ⟨schema, s, hc, ha, _⟩ | ⟨_, hkept⟩
    · exact absurd ⟨schema, s, _, hc, ha⟩ hattempt
    · exact hkept

/-- **The default schema after a run** has seen the attempts of the run. -/
theorem Run.defaultAttempts_after (h : FreeRun w steps w') (hm : w.model? i = some m) :
    ∃ m', w'.model? i = some m' ∧ m'.settings.config = m.settings.config ∧
      m'.settings.defaultSchema =
        m.settings.defaultSchema.attemptAll (defaultAttempts i steps) := by
  induction h with
  | nil => exact ⟨m, hm, rfl, rfl⟩
  | snoc _ single _ does ih =>
      obtain ⟨m₁, hm₁, hconfig₁, hdefault₁⟩ := ih
      obtain ⟨m₂, hm₂, hconfig₂, hdefault₂⟩ := step_defaultAttempts single does hm₁
      refine ⟨m₂, hm₂, hconfig₂.trans hconfig₁, ?_⟩
      rw [defaultAttempts_append, Tracked.attemptAll_append, ← hdefault₁, hdefault₂]

/-- The model whose default schema is asked for is there. -/
theorem model_of_execute {schema : Option String} {s : Source}
    (does : w.execute (.setDefaultSchema i schema s) = some (w', a)) :
    ∃ m, w.model? i = some m := by
  obtain ⟨m, hm, _⟩ := changeModel_eq_some does
  exact ⟨m, hm⟩

/-- Nothing is attempted on the default schema of a model that is not there. -/
theorem defaultAttempts_absent (does : w.execute c = some (w', a)) (hm : w.model? i = none) :
    defaultAttempts i [⟨c, a⟩] = [] := by
  refine defaultAttempts_eq_nil ?_
  rintro schema s o rfl _
  obtain ⟨m, hthere⟩ := model_of_execute does
  rw [hm] at hthere
  cases hthere

theorem Run.defaultAttempts_absent (h : FreeRun .empty steps w) (hm : w.model? i = none) :
    defaultAttempts i steps = [] := by
  induction h with
  | nil => rfl
  | @snoc steps v v' c a _ single _ does ih =>
      have hv : v.model? i = none := by
        rw [← Option.not_isSome_iff_eq_none]
        intro hthere
        have hafter := (execute_effect single does).hasModel hthere
        rw [hm] at hafter
        cases hafter
      rw [defaultAttempts_append, ih hv, Workspace.defaultAttempts_absent does hv]
      rfl

/-- **The default schema of a model** has seen all attempts since the model was made, after what the
configuration of the model has brought. -/
theorem Run.defaultAttempts_made (h : FreeRun .empty steps w) (hm : w.model? i = some m) :
    m.settings.defaultSchema =
      (ModelSettings.ofConfig m.settings.config).defaultSchema.attemptAll
        (defaultAttempts i steps) := by
  induction h generalizing m with
  | nil => cases hm
  | @snoc steps v v' c a before single _ does ih =>
      rw [defaultAttempts_append, Tracked.attemptAll_append]
      cases hv : v.model? i with
      | some n =>
          obtain ⟨m₁, hm₁, hconfig, hdefault⟩ := step_defaultAttempts single does hv
          obtain rfl : m₁ = m := Option.some.inj (hm₁.symm.trans hm)
          rw [hconfig, ← ih hv, hdefault]
      | none =>
          -- A model is made with the default schema of its configuration.
          rw [Run.defaultAttempts_absent before hv, Workspace.defaultAttempts_absent does hv]
          rcases (execute_effect single does).model_before hm with
            ⟨config, _, rfl⟩ | ⟨n, hn, _⟩
          · rfl
          · rw [hv] at hn
            cases hn

/-- Until a model is finalized, no change of its default schema is refused. -/
theorem Run.default_heard (h : FreeRun w steps w')
    (hopen : ∀ m, w'.model? i = some m → m.settings.readOnly = false)
    {step : Step} (hstep : step ∈ steps) {schema : Option String} {s : Source}
    (hc : step.command = .setDefaultSchema i schema s) : ∃ o, step.answer = .ok o := by
  induction h with
  | nil => cases hstep
  | @snoc steps v v' c a before single _ does ih =>
      have hbefore : ∀ m, v.model? i = some m → m.settings.readOnly = false := by
        intro m hm
        rw [Bool.eq_false_iff]
        intro hfinal
        rcases (execute_effect single does).model_after hm with hsame | ⟨e, _, _, hafter⟩
        · exact absurd hfinal (Bool.eq_false_iff.1 (hopen m hsame))
        · exact absurd (Model.readOnly_apply hfinal) (Bool.eq_false_iff.1 (hopen _ hafter))
      rcases List.mem_append.1 hstep with hold | hlast
      · exact ih hbefore hold
      · rw [List.mem_singleton.1 hlast] at hc ⊢
        obtain rfl := hc
        obtain ⟨m, hm⟩ := model_of_execute does
        obtain ⟨_, hdoes⟩ := execute_defaultSchema_open hm (hbefore m hm) schema s
        rw [does, Option.some.injEq, Prod.mk.injEq] at hdoes
        exact ⟨_, hdoes.2⟩

/-! ## At any moment -/

/-- How the calls for an aspect of parameters go from the state `w` on: they act as attempts, in any
run whatever; while the procedure is writable none of them is refused; and which of them is rejected
is told by the record. -/
structure TracksAspect {α : Type} [BEq α] (aspect : Parameter.Aspect α) (w : Workspace) :
    Prop where
  leaves : ∀ ref m p key q, w.procedure? ref = some (m, p) → p.findParameter? key = some q →
    ∀ steps w', FreeRun w steps w' → ∃ m' p' q', w'.procedure? ref = some (m', p') ∧
      p'.findParameter? key = some q' ∧
      (aspect.of q).Leaves (aspect.attempts ref key steps) (aspect.of q') ∧
      (p'.isWritable m'.settings = true → ∀ step ∈ steps, ∀ v s,
        step.command.request? ref = some (.parameter key v, s) → ∃ o, step.answer = .ok o)
  answered : ∀ ref m p key q, w.procedure? ref = some (m, p) → p.findParameter? key = some q →
    p.isWritable m.settings = true → ∀ c v s a, c.request? ref = some (.parameter key v, s) →
    aspect.value? v = some a → ∃ w' o, w.execute c = some (w', .ok o) ∧
      ((⟨c, .ok o⟩ : Step).granted = false ↔ (aspect.of q).Rejects a s)

theorem tracksAspect {α : Type} [BEq α] [LawfulBEq α] (aspect : Parameter.Aspect α)
    (w : Workspace) : TracksAspect aspect w where
  leaves := by
    intro ref m p key q hp hq steps w' hrun
    obtain ⟨m', p', q', hp', hq', hof⟩ := Run.aspect_after aspect hrun hp hq
    refine ⟨m', p', q', hp', hq', ?_, ?_⟩
    · rw [hof]
      exact Tracked.leaves_attemptAll _ _
    · intro hopen step hstep v s hreq
      exact Run.parameter_heard hrun hp hq hp' hopen hstep hreq
  answered := by
    intro ref m p key q hp hq hopen c v s a hreq hv
    obtain ⟨w', o, hdoes⟩ := execute_parameter_open hp hopen (by rw [hq]; rfl) hreq
    refine ⟨w', o, hdoes, ?_⟩
    rw [(execute_granted hreq hdoes hp).2, Procedure.accepts, hq, Option.any_some,
      aspect.accepts hv, Tracked.accepts_eq_false_iff]

/-- How changes of the default schema go of the model `m`, after the steps `past` that have come to
`w`: they have acted, and go on acting, as attempts after what the configuration has brought; until
the model is finalized none of them is refused; and where the configuration has brought one, only
explicit changes change it. -/
structure TracksDefault (past : List Step) (w : Workspace) (i : ModelId) (m : Model) : Prop where
  made : (ModelSettings.ofConfig m.settings.config).defaultSchema.Leaves (defaultAttempts i past)
    m.settings.defaultSchema
  heard : m.settings.readOnly = false → ∀ step ∈ past, ∀ schema s,
    step.command = .setDefaultSchema i schema s → ∃ o, step.answer = .ok o
  leaves : ∀ steps w', FreeRun w steps w' → ∃ m', w'.model? i = some m' ∧
    m.settings.defaultSchema.Leaves (defaultAttempts i steps) m'.settings.defaultSchema
  answered : m.settings.readOnly = false → ∀ schema s, ∃ w' b,
    w.execute (.setDefaultSchema i schema s) = some (w', .ok (.applied b)) ∧
      (b = false ↔ m.settings.defaultSchema.Rejects schema s)
  configured : m.settings.config.defaultSchema ≠ none →
    m.settings.defaultSchema.source = some .explicit ∧
    ∀ steps w', FreeRun w steps w' →
      (∀ step ∈ steps, ∀ schema, step.command ≠ .setDefaultSchema i schema .explicit) →
      ∃ m', w'.model? i = some m' ∧ m'.settings.defaultSchema = m.settings.defaultSchema

theorem tracksDefault (hpast : FreeRun .empty past w) (hm : w.model? i = some m) :
    TracksDefault past w i m := by
  have hmade : (ModelSettings.ofConfig m.settings.config).defaultSchema.Leaves
      (defaultAttempts i past) m.settings.defaultSchema := by
    rw [Run.defaultAttempts_made hpast hm]
    exact Tracked.leaves_attemptAll _ _
  refine ⟨hmade, ?_, ?_, ?_, ?_⟩
  · intro hopen step hstep schema s hc
    refine Run.default_heard hpast ?_ hstep hc
    intro n hn
    rw [Option.some.inj (hn.symm.trans hm)]
    exact hopen
  · intro steps w' hrun
    obtain ⟨m', hm', _, hdefault⟩ := Run.defaultAttempts_after hrun hm
    refine ⟨m', hm', ?_⟩
    rw [hdefault]
    exact Tracked.leaves_attemptAll _ _
  · intro hopen schema s
    obtain ⟨w', hdoes⟩ := execute_defaultSchema_open hm hopen schema s
    exact ⟨w', _, hdoes, Tracked.accepts_eq_false_iff⟩
  · intro hconfig
    obtain ⟨schema, hschema⟩ := Option.ne_none_iff_exists'.1 hconfig
    have hexplicit : m.settings.defaultSchema.source = some .explicit := by
      refine hmade.explicit ?_
      rw [ModelSettings.ofConfig_defaultSchema_source, hschema]
      rfl
    refine ⟨hexplicit, ?_⟩
    intro steps w' hrun hquiet
    obtain ⟨m', hm', _, hdefault⟩ := Run.defaultAttempts_after hrun hm
    refine ⟨m', hm', ?_⟩
    rw [hdefault]
    refine Tracked.attemptAll_of_explicit hexplicit ?_
    intro b hb hsource
    obtain ⟨step, hstep, hattempt⟩ := List.mem_filterMap.1 hb
    obtain ⟨hc, _⟩ := Step.defaultAttempt?_eq_some hattempt
    rw [hsource] at hc
    exact hquiet step hstep b.value hc

/-- **Tracked values over many writes**: of values on their own, and of those of parameters and
models in every run from every state that a run can come to. -/
theorem tracked_values (hpast : FreeRun .empty past w) :
    (∀ (α : Type) [BEq α] [LawfulBEq α] (start : Tracked α) (attempts : List (Attempt α)),
      start.Leaves attempts (start.attemptAll attempts) ∧
      ∀ a s, (start.attemptAll attempts).write? a s = none ↔
        (start.attemptAll attempts).Rejects a s) ∧
    TracksAspect .storeType w ∧ TracksAspect .typeMapping w ∧
    ∀ i m, w.model? i = some m → TracksDefault past w i m := by
  refine ⟨?_, tracksAspect _ w, tracksAspect _ w, fun i m => tracksDefault hpast⟩
  intro α _ _ start attempts
  exact ⟨start.leaves_attemptAll attempts, fun a s => Tracked.write?_eq_none_iff_rejects⟩

/-- A model with a default schema from its configuration, which a convention has not changed, and a
procedure with a parameter. -/
def configuredDefault : List Step × Workspace :=
  (carryOn (IsOpen []) [] .empty
    [.createModel ⟨some "dbo", "_", 128⟩, .setDefaultSchema 0 (some "sales") .annotated,
      .addType 0 "Blog" none, .createRegistry 0,
      .setConvention ⟨0, 0⟩ 0 ⟨0, 0, "Blog"⟩ .insert false,
      .suggestSignature ⟨0, 0⟩ ⟨["id"]⟩ false]).get rfl

/-- Calls for the store type of the parameter, of which the second decides and the third is
rejected. -/
def retyping : List Step × Workspace :=
  (carryOn (fun _ _ => True) [] configuredDefault.2
    [.suggest ⟨0, 0⟩ (.parameter "id" (.storeType (some "int"))) false,
      .suggest ⟨0, 0⟩ (.parameter "id" (.storeType none)) true,
      .suggest ⟨0, 0⟩ (.parameter "id" (.storeType (some "int"))) false]).get rfl

theorem tracked_values_configured : FreeRun .empty configuredDefault.1 configuredDefault.2 ∧
    (∃ m, configuredDefault.2.model? 0 = some m ∧
      TracksDefault configuredDefault.1 configuredDefault.2 0 m ∧
      m.settings.defaultSchema = ⟨some "dbo", some .explicit⟩) ∧
    ∃ m p q, retyping.2.procedure? ⟨0, 0⟩ = some (m, p) ∧ p.findParameter? "id" = some q ∧
      (Tracked.unset none).Leaves
        [⟨some "int", .convention⟩, ⟨none, .annotated⟩, ⟨some "int", .convention⟩] q.storeType ∧
      q.storeType = ⟨none, some .annotated⟩ := by
  have hsession : Session configuredDefault.1 configuredDefault.2 :=
    Run.carryOn .nil (Option.some_get rfl).symm
  have hpast : FreeRun .empty configuredDefault.1 configuredDefault.2 :=
    hsession.mono fun _ _ _ => trivial
  have hmore : FreeRun configuredDefault.2 retyping.1 retyping.2 :=
    Run.carryOn .nil (Option.some_get rfl).symm
  have hp : configuredDefault.2.procedure? ⟨0, 0⟩ = some (_, _) := rfl
  obtain ⟨_, htypes, _, hdefaults⟩ := tracked_values hpast
  obtain ⟨m, p, q, hp', hq', hleaves, _⟩ := htypes.leaves _ _ _ "id" _ hp rfl _ _ hmore
  refine ⟨hpast, ⟨_, rfl, hdefaults 0 _ rfl, rfl⟩, m, p, q, hp', hq', hleaves, ?_⟩
  have hrecord : retyping.2.procedure? ⟨0, 0⟩ = some (_, _) := rfl
  cases hrecord.symm.trans hp'
  cases hq'
  rfl

end Workspace

end ProcedureMapping
