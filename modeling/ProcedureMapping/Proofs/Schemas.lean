import ProcedureMapping.Proofs.Precedence

/-!
# Which schema applies

An unset schema is read through to the default schema of the model, which may change at any time.
The decisive call for a schema may be one that asks for no schema of its own, so that the default
one goes on applying; but then a weaker call that names the default schema **of its moment** repeats
what applies, is accepted, and is recorded.  From there on the schema is **pinned**: it no longer
follows the default schema of the model.

So the schema that applies is the decisive one, or else the pinned one, or else the default schema
at the end, and the order in which weaker calls and default schemas arrive does count.

Main statements:

* `Schemed.call`, `Schemed.default` — what one event preserves;
* `Run.schemed` — what a run leaves of a schema;
* `schema_outcome` — which schema applies, and when the decisive call alone says so;
* `schema_pinned_by_weaker_call` — two interleavings that differ in a weaker call only.
-/

namespace ProcedureMapping

/-! ## Events -/

/-- What bears on the schema of a procedure: a call for it, or another default schema. -/
inductive SchemaEvent where
  | call (c : Call)
  | default (schema : Option String)
  deriving DecidableEq

namespace SchemaEvent

def call? : SchemaEvent → Option Call
  | call c => some c
  | default _ => none

/-- The calls among the events. -/
def calls (events : List SchemaEvent) : List Call := events.filterMap call?

/-- The default schema after the events. -/
def defaultAfter (schema : Option String) : List SchemaEvent → Option String
  | [] => schema
  | call _ :: rest => defaultAfter schema rest
  | default other :: rest => defaultAfter other rest

/-- The schema that the first call pins which names the default schema of its moment. -/
def pinned (schema : Option String) : List SchemaEvent → Option String
  | [] => none
  | call c :: rest =>
      if schema.isSome = true ∧ c.value = schema then schema else pinned schema rest
  | default other :: rest => pinned other rest

variable {events : List SchemaEvent} {schema : Option String}

@[simp] theorem calls_call (events : List SchemaEvent) (c : Call) :
    calls (events ++ [call c]) = calls events ++ [c] := by
  simp [calls, call?]

@[simp] theorem calls_default (events : List SchemaEvent) (other : Option String) :
    calls (events ++ [default other]) = calls events := by
  simp [calls, call?]

theorem defaultAfter_append (schema : Option String) (events more : List SchemaEvent) :
    defaultAfter schema (events ++ more) = defaultAfter (defaultAfter schema events) more := by
  induction events generalizing schema with
  | nil => rfl
  | cons event rest ih =>
      cases event with
      | call c => exact ih schema
      | default other => exact ih other

theorem pinned_default (schema other : Option String) (events : List SchemaEvent) :
    pinned schema (events ++ [default other]) = pinned schema events := by
  induction events generalizing schema with
  | nil => rfl
  | cons event rest ih =>
      cases event with
      | call c =>
          simp only [List.cons_append, pinned]
          rw [ih schema]
      | default found => exact ih found

theorem pinned_call (schema : Option String) (events : List SchemaEvent) (c : Call) :
    pinned schema (events ++ [call c]) = (pinned schema events).or
      (if (defaultAfter schema events).isSome = true ∧ c.value = defaultAfter schema events then
        c.value
      else none) := by
  induction events generalizing schema with
  | nil =>
      simp only [List.nil_append, pinned, defaultAfter]
      split
      · next h => simp [h.2]
      · next h => simp [h]
  | cons event rest ih =>
      cases event with
      | call b =>
          simp only [List.cons_append, pinned, defaultAfter]
          split
          · next h =>
              obtain ⟨x, hx⟩ := Option.isSome_iff_exists.1 h.1
              simp [hx]
          · exact ih schema
      | default other => exact ih other

end SchemaEvent

/-- The event of a step: an accepted change of the default schema, or a call that was not
refused. -/
def Step.schemaEvent? (ref : ProcedureRef) (s : Step) : Option SchemaEvent :=
  match s.command, s.answer with
  | .setDefaultSchema i schema _, .ok (.applied true) =>
      if i = ref.model then some (.default schema) else none
  | _, _ => (s.request? ref).bind fun (w, source) =>
      w.schema?.map fun value => .call ⟨value, source⟩

def schemaEvents (ref : ProcedureRef) (steps : List Step) : List SchemaEvent :=
  steps.filterMap (Step.schemaEvent? ref)

open SchemaEvent

/-! ## What the events leave -/

/-- What events leave of a schema: the strongest source, and the decisive schema or else the pinned
one. -/
structure Schemed (start : Option String) (events : List SchemaEvent)
    (schema : Tracked (Option String)) : Prop where
  source : schema.source = topSource (calls events)
  unset : calls events = [] → schema = .unset none
  value : ∀ c, decisive (calls events) = some c → ∃ before after,
    events = before ++ .call c :: after ∧ (∀ b ∈ calls after, b.source < c.source) ∧
      schema.value = c.value.or (pinned (defaultAfter start before) after)

section Schemed

variable {settings : ModelSettings} {p : Procedure} {start : Option String}
  {events : List SchemaEvent} {c : Call}

/-- **Another default schema** leaves the record as it is. -/
theorem Schemed.default {schema : Tracked (Option String)} (h : Schemed start events schema)
    (other : Option String) : Schemed start (events ++ [.default other]) schema := by
  refine ⟨?_, ?_, ?_⟩
  · rw [calls_default, h.source]
  · rw [calls_default]
    exact h.unset
  · intro c hc
    rw [calls_default] at hc
    obtain ⟨before, after, hevents, hweaker, hvalue⟩ := h.value c hc
    refine ⟨before, after ++ [.default other], by simp [hevents], ?_, ?_⟩
    · rw [calls_default]
      exact hweaker
    · rw [pinned_default, hvalue]

theorem schema_heed (settings : ModelSettings) (p : Procedure) (c : Call) :
    (p.heed settings (.schema c.value) c.source).schema =
      if p.acceptsSchema settings c.value c.source then p.schema.set c.value c.source
      else p.schema := by
  unfold Procedure.heed Procedure.accepts
  dsimp only
  split <;> rfl

theorem acceptsSchema_iff : p.acceptsSchema settings c.value c.source = true ↔
    c.source.overrides p.schema.source = true ∨ p.effectiveSchema settings = c.value := by
  simp [Procedure.acceptsSchema]

theorem effectiveSchema_eq (settings : ModelSettings) (p : Procedure) :
    p.effectiveSchema settings = p.schema.value.or settings.defaultSchema.value := by
  simp [Procedure.effectiveSchema]

/-- A weaker call leaves a recorded schema, and pins the default one that it names. -/
theorem value_heed_weak (hweak : c.source.overrides p.schema.source ≠ true) :
    (p.heed settings (.schema c.value) c.source).schema.value = p.schema.value.or
      (if settings.defaultSchema.value.isSome = true ∧ c.value = settings.defaultSchema.value then
        c.value
      else none) := by
  have haccepts : p.acceptsSchema settings c.value c.source = true ↔
      p.schema.value.or settings.defaultSchema.value = c.value := by
    rw [acceptsSchema_iff, effectiveSchema_eq]
    exact or_iff_right hweak
  rw [schema_heed]
  cases hvalue : p.schema.value with
  | some x =>
      rw [hvalue, Option.some_or] at haccepts
      by_cases hyes : p.acceptsSchema settings c.value c.source = true
      · rw [if_pos hyes]
        exact (haccepts.1 hyes).symm
      · rw [if_neg hyes, hvalue]
        rfl
  | none =>
      rw [hvalue, Option.none_or] at haccepts
      by_cases hyes : p.acceptsSchema settings c.value c.source = true
      · rw [if_pos hyes, Option.none_or]
        have hsame := haccepts.1 hyes
        by_cases hsome : settings.defaultSchema.value.isSome = true
        · rw [if_pos ⟨hsome, hsame.symm⟩]
          rfl
        · rw [if_neg fun h => hsome h.1]
          have hnone : settings.defaultSchema.value = none := by simpa using hsome
          rw [← hnone, hsame]
          rfl
      · rw [if_neg hyes, hvalue, Option.none_or, if_neg]
        exact fun h => hyes (haccepts.2 h.2.symm)

/-- **One call** keeps the strongest source and the schema that is decisive or pinned. -/
theorem Schemed.call (h : Schemed start events p.schema)
    (hdefault : settings.defaultSchema.value = defaultAfter start events) :
    Schemed start (events ++ [.call c])
      (p.heed settings (.schema c.value) c.source).schema := by
  by_cases hover : c.source.overrides (topSource (calls events)) = true
  · have hyes : p.acceptsSchema settings c.value c.source = true :=
      acceptsSchema_iff.2 (.inl (h.source ▸ hover))
    rw [schema_heed, if_pos hyes]
    refine ⟨?_, by simp, ?_⟩
    · rw [calls_call, topSource_append, ← h.source]
      rfl
    · intro d hd
      rw [calls_call, decisive_append, if_pos hover] at hd
      cases hd
      refine ⟨events, [], rfl, by simp [calls], ?_⟩
      simp [pinned, Tracked.set]
  · have hweak : c.source.overrides p.schema.source ≠ true := h.source ▸ hover
    refine ⟨?_, by simp, ?_⟩
    · have hkept : (p.heed settings (.schema c.value) c.source).schema.source
          = p.schema.source := by
        rw [schema_heed]
        split
        · exact Source.some_max_of_not_overrides hweak
        · rfl
      rw [hkept, calls_call, topSource_append, ← h.source,
        Source.some_max_of_not_overrides hweak]
    · intro d hd
      rw [calls_call, decisive_append, if_neg hover] at hd
      obtain ⟨before, after, hevents, hweaker, hvalue⟩ := h.value d hd
      refine ⟨before, after ++ [.call c], by simp [hevents], ?_, ?_⟩
      · intro b hb
        rw [calls_call, List.mem_append, List.mem_singleton] at hb
        rcases hb with hold | rfl
        · exact hweaker b hold
        · rw [decisive_source hd] at hover
          exact Source.lt_of_not_le fun hle => hover ((Source.overrides_some _ _).2 hle)
      · have hcurrent : settings.defaultSchema.value =
            defaultAfter (defaultAfter start before) after := by
          rw [hdefault, hevents, defaultAfter_append]
          rfl
        rw [value_heed_weak hweak, hvalue, pinned_call, hcurrent, Option.or_assoc]

end Schemed

/-! ## Runs -/

namespace Workspace

variable {w w' : Workspace} {c : Command} {ref : ProcedureRef} {steps : List Step}
  {m m' : Model} {p p' : Procedure}

/-- Only an accepted change of the default schema changes it. -/
theorem step_default {a : Except Error Outcome} {i : ModelId} (hsingle : c.isSingle = true)
    (h : w.execute c = some (w', a)) (hm : w.model? i = some m) (hm' : w'.model? i = some m') :
    (∃ schema s, c = .setDefaultSchema i schema s ∧ a = .ok (.applied true) ∧
      m'.settings.defaultSchema.value = schema) ∨
    (∀ schema s, c = .setDefaultSchema i schema s → a ≠ .ok (.applied true)) ∧
      m'.settings.defaultSchema = m.settings.defaultSchema := by
  have hkept : w'.model? i = w.model? i → m'.settings.defaultSchema = m.settings.defaultSchema := by
    intro hsame
    rw [hm, hm', Option.some.injEq] at hsame
    rw [hsame]
  by_cases hdefault : ∃ j schema s, c = .setDefaultSchema j schema s
  · obtain ⟨j, schema, s, rfl⟩ := hdefault
    cases a with
    | error x =>
        rw [execute_error hsingle h] at hkept
        refine .inr ⟨?_, hkept rfl⟩
        intro _ _ _ hanswer
        cases hanswer
    | ok o =>
        obtain ⟨n, hn, ⟨rfl, _, rfl⟩ | ⟨rfl, _, rfl⟩⟩ := execute_setDefaultSchema h
        · by_cases hij : j = i
          · subst hij
            rw [model?_setModel hn, if_pos rfl] at hm'
            cases hm'
            exact .inl ⟨schema, s, rfl, rfl, rfl⟩
          · rw [model?_setModel hn, if_neg hij] at hkept
            refine .inr ⟨?_, hkept rfl⟩
            intro _ _ heq
            cases heq
            exact absurd rfl hij
        · refine .inr ⟨?_, hkept rfl⟩
          intro _ _ _ hanswer
          cases hanswer
  · refine .inr ⟨fun schema s hc => absurd ⟨i, schema, s, hc⟩ hdefault, ?_⟩
    rcases (execute_effect hsingle h).model_after hm with hsame | ⟨e, hmakes, _, hafter⟩
    · exact hkept (hsame.trans hm.symm)
    · have hm'' : m' = m.apply e := Option.some.inj (hm'.symm.trans hafter)
      rw [hm'']
      rcases m.defaultSchema_apply e with hsame | ⟨schema, s, rfl⟩
      · exact hsame
      · cases hmakes
        exact absurd ⟨_, _, _, rfl⟩ hdefault

theorem schemaEvents_append (ref : ProcedureRef) (steps : List Step) (s : Step) :
    schemaEvents ref (steps ++ [s]) = schemaEvents ref steps ++ (s.schemaEvent? ref).toList := by
  unfold schemaEvents
  rw [List.filterMap_append]
  cases h : s.schemaEvent? ref <;> simp [h]

/-- The event of a step that does not change the default schema is its call, if it has one. -/
theorem schemaEvent?_eq {a : Except Error Outcome}
    (h : ∀ schema s, c = .setDefaultSchema ref.model schema s → a ≠ .ok (.applied true)) :
    Step.schemaEvent? ref ⟨c, a⟩ = (Step.request? ref ⟨c, a⟩).bind fun (w, source) =>
      w.schema?.map fun value => .call ⟨value, source⟩ := by
  unfold Step.schemaEvent?
  split
  · next i schema s hc ha =>
      obtain ⟨rfl, rfl⟩ : c = .setDefaultSchema i schema s ∧ a = .ok (.applied true) := ⟨hc, ha⟩
      rw [if_neg]
      · rfl
      · rintro rfl
        exact h schema s rfl rfl
  · rfl

/-- **What a run leaves of a schema** that was unset at its start. -/
theorem Run.schemed (h : FreeRun w steps w') (hp : w.procedure? ref = some (m, p))
    (hfresh : p.schema = .unset none) : ∃ m' p', w'.procedure? ref = some (m', p') ∧
      Schemed m.settings.defaultSchema.value (schemaEvents ref steps) p'.schema ∧
      m'.settings.defaultSchema.value =
        defaultAfter m.settings.defaultSchema.value (schemaEvents ref steps) := by
  induction h with
  | nil =>
      refine ⟨m, p, hp, ?_, rfl⟩
      rw [hfresh]
      refine ⟨rfl, fun _ => rfl, ?_⟩
      intro c hc
      cases hc
  | @snoc steps v v' c a _ single _ does ih =>
      obtain ⟨m₁, p₁, hp₁, hschemed, hdefault⟩ := ih
      obtain ⟨m₂, p₂, hp₂, _, hstep⟩ := step_record single does hp₁
      have hm₁ := (procedure?_eq_some_iff.1 hp₁).1
      have hm₂ := (procedure?_eq_some_iff.1 hp₂).1
      refine ⟨m₂, p₂, hp₂, ?_⟩
      rw [schemaEvents_append]
      rcases step_default single does hm₁ hm₂ with ⟨schema, s, rfl, rfl, hnew⟩ | ⟨hnone, hkept⟩
      · have hevent : Step.schemaEvent? ref ⟨.setDefaultSchema ref.model schema s,
            .ok (.applied true)⟩ = some (.default schema) := if_pos rfl
        obtain ⟨_, hschema⟩ := hstep
        rw [hevent, hschema, Option.toList_some, defaultAfter_append]
        exact ⟨hschemed.default schema, hnew⟩
      · rw [schemaEvent?_eq hnone, hkept]
        cases hreq : Step.request? ref ⟨c, a⟩ with
        | none =>
            rw [hreq] at hstep
            rw [hstep.2]
            simpa using ⟨hschemed, hdefault⟩
        | some request =>
            obtain ⟨write, s⟩ := request
            rw [hreq] at hstep
            obtain ⟨rfl, _⟩ := hstep
            cases write with
            | schema value =>
                refine ⟨hschemed.call (c := ⟨value, s⟩) hdefault, ?_⟩
                simp only [Option.bind_some, Procedure.Write.schema?, Option.map_some,
                  Option.toList_some, defaultAfter_append, hdefault]
                rfl
            | _ =>
                rw [Procedure.schema_heed_other rfl]
                simpa [Procedure.Write.schema?] using ⟨hschemed, hdefault⟩

/-- **Which schema applies** after a run.  Without a call it is the default schema at the end.
Otherwise it is the decisive one, or else the one that a later call pinned, or else the default
schema at the end; so a decisive call for no schema leaves the default one at the end exactly when
no later call has pinned another.  While the procedure stays writable no call is refused but an
explicit schema that is too long. -/
theorem schema_outcome (h : FreeRun w steps w') (hp : w.procedure? ref = some (m, p))
    (hfresh : p.schema = .unset none) : ∃ m' p', w'.procedure? ref = some (m', p') ∧
      p'.schema.source = topSource (calls (schemaEvents ref steps)) ∧
      (calls (schemaEvents ref steps) = [] →
        p'.effectiveSchema m'.settings = m'.settings.defaultSchema.value) ∧
      (p'.isWritable m'.settings = true → ∀ s ∈ steps, ∀ value source x,
        s.command.request? ref = some (.schema value, source) → s.answer = .error x →
        OverLong m.settings.config value source x) ∧
      (calls (schemaEvents ref steps) ≠ [] → ∃ c before after,
        decisive (calls (schemaEvents ref steps)) = some c ∧
        schemaEvents ref steps = before ++ .call c :: after ∧
        (∀ b ∈ calls after, b.source < c.source) ∧
        p'.effectiveSchema m'.settings =
          (c.value.or (pinned (defaultAfter m.settings.defaultSchema.value before) after)).or
            m'.settings.defaultSchema.value ∧
        (p'.effectiveSchema m'.settings = c.value.or m'.settings.defaultSchema.value ↔
          (c.value = none → ∀ x,
            pinned (defaultAfter m.settings.defaultSchema.value before) after = some x →
            m'.settings.defaultSchema.value = some x))) := by
  obtain ⟨m', p', hp', hschemed, _⟩ := Run.schemed h hp hfresh
  refine ⟨m', p', hp', hschemed.source, ?_, ?_, ?_⟩
  · intro hnone
    rw [effectiveSchema_eq, hschemed.unset hnone]
    rfl
  · intro hopen s hs value source x hreq hfail
    exact Run.overLong h hp hp' hopen hs hreq rfl hfail
  · intro hcalls
    obtain ⟨c, hc⟩ := Option.ne_none_iff_exists'.1 (mt decisive_eq_none_iff.1 hcalls)
    obtain ⟨before, after, hevents, hweaker, hvalue⟩ := hschemed.value c hc
    have heffective : p'.effectiveSchema m'.settings =
        (c.value.or (pinned (defaultAfter m.settings.defaultSchema.value before) after)).or
          m'.settings.defaultSchema.value := by
      rw [effectiveSchema_eq, hvalue]
    refine ⟨c, before, after, hc, hevents, hweaker, heffective, ?_⟩
    rw [heffective]
    cases c.value with
    | some y => simp
    | none =>
        cases pinned (defaultAfter m.settings.defaultSchema.value before) after with
        | none => simp
        | some x =>
            simp only [Option.none_or, Option.some_or, Option.some.injEq, forall_const,
              forall_eq']
            exact eq_comm

/-- A procedure of which nothing is configured, under the default schema "dbo". -/
def unschemed : Workspace :=
  ((carryOn (IsOpen []) [] .empty
    [.createModel .standard, .setDefaultSchema 0 (some "dbo") .convention,
      .addType 0 "Blog" none, .createRegistry 0,
      .set ⟨0, 0⟩ ⟨0, 0, "Blog"⟩ .insert]).get rfl).2

/-- No schema explicitly, then another default schema. -/
def followed : List Step × Workspace :=
  (carryOn (fun _ _ => True) [] unschemed
    [.configure ⟨0, 0⟩ (.schema none), .setDefaultSchema 0 (some "sales") .convention]).get rfl

/-- The same, with a convention between that names the default schema of its moment. -/
def repeated : List Step × Workspace :=
  (carryOn (fun _ _ => True) [] unschemed
    [.configure ⟨0, 0⟩ (.schema none), .suggest ⟨0, 0⟩ (.schema (some "dbo")) false,
      .setDefaultSchema 0 (some "sales") .convention]).get rfl

theorem schema_outcome_repeated :
    FreeRun unschemed repeated.1 repeated.2 ∧ ∃ m p, repeated.2.procedure? ⟨0, 0⟩ = some (m, p) ∧
      p.schema.source = some .explicit := by
  have hrun : FreeRun unschemed repeated.1 repeated.2 :=
    Run.carryOn .nil (Option.some_get rfl).symm
  have hp : unschemed.procedure? ⟨0, 0⟩ = some (_, _) := rfl
  obtain ⟨m, p, hp', hsource, _⟩ := schema_outcome hrun hp rfl
  exact ⟨hrun, m, p, hp', hsource.trans (by decide)⟩

/-- **The order does count**: the two runs have the same calls at the strongest source and the same
default schema at the end, and yet one procedure follows it and the other does not. -/
theorem schema_pinned_by_weaker_call :
    FreeRun unschemed followed.1 followed.2 ∧ FreeRun unschemed repeated.1 repeated.2 ∧
      deciding (calls (schemaEvents ⟨0, 0⟩ followed.1)) = [⟨none, .explicit⟩] ∧
      deciding (calls (schemaEvents ⟨0, 0⟩ repeated.1)) = [⟨none, .explicit⟩] ∧
      (∃ m p, followed.2.procedure? ⟨0, 0⟩ = some (m, p) ∧
        m.settings.defaultSchema.value = some "sales" ∧
        p.effectiveSchema m.settings = some "sales") ∧
      ∃ m p, repeated.2.procedure? ⟨0, 0⟩ = some (m, p) ∧
        m.settings.defaultSchema.value = some "sales" ∧
        p.effectiveSchema m.settings = some "dbo" := by
  refine ⟨?_, ?_, by decide, by decide, ?_, ?_⟩
  · exact Run.carryOn .nil (Option.some_get rfl).symm
  · exact Run.carryOn .nil (Option.some_get rfl).symm
  · exact ⟨_, _, rfl, rfl, rfl⟩
  · exact ⟨_, _, rfl, rfl, rfl⟩

end Workspace

end ProcedureMapping
