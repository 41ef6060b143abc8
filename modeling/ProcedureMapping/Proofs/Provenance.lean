import ProcedureMapping.Proofs.Answers
import ProcedureMapping.Proofs.Names
import ProcedureMapping.Proofs.Schemas

/-!
# Where names and schemas come from

The name and the schema of a procedure are recorded with a source.  The record is **honest** when
an accepted call has brought that very value at that very source.

What is recorded is put together from two calls: the value is that of the last accepted call, and
the source is the strongest one.  The two are the same call unless the last call at the strongest
source has asked for no value, so that a default applies, and a weaker call has then named that
default.  The weaker call is accepted, as it asks for nothing new, and its value is recorded at the
strongest source, which nobody may ever have brought it at.

Main statements:

* `execute_granted` — a call that is carried out is granted if and only if it is accepted;
* `Run.exists_accepted` — every accepted call has its moment;
* `Leave.call` — what one accepted call preserves;
* `Run.leaves` — what a run leaves of a name or a schema;
* `provenance` — when the record is honest;
* `stamped_by_nobody` — a name and a schema whose record is not.
-/

namespace ProcedureMapping

/-- Whether a step has done what it was asked for. -/
def Step.granted (s : Step) : Bool :=
  match s.answer with
  | .ok (.applied b) => b
  | .ok _ => true
  | .error _ => false

/-- A part of a procedure that calls contribute to. -/
inductive Part where
  | name
  | schema

namespace Part

/-- What is recorded for a part. -/
def of : Part → Procedure → Tracked (Option String)
  | name => Procedure.name
  | schema => Procedure.schema

/-- The value that a write brings for a part. -/
def write? : Part → Procedure.Write → Option (Option String)
  | name => Procedure.Write.name?
  | schema => Procedure.Write.schema?

/-- What applies for a part that has no value. -/
def fallback (settings : ModelSettings) (p : Procedure) : Part → Option String
  | name => some (p.defaultName settings)
  | schema => settings.defaultSchema.value

/-- Why a call for a part is accepted: it is strong enough, or it repeats what is recorded, or it
names the default that applies. -/
def Concedes (part : Part) (settings : ModelSettings) (p : Procedure) (c : Call) : Prop :=
  c.source.overrides (part.of p).source = true ∨ c.value = (part.of p).value ∨
    (part.of p).value = none ∧ c.value ≠ none ∧ c.value = part.fallback settings p

variable {part : Part} {settings : ModelSettings} {p : Procedure} {write : Procedure.Write}
  {value : Option String} {s : Source}

theorem of_record (h : part.write? write = some value) (p : Procedure) (s : Source) :
    part.of (p.record write s) = (part.of p).set value s := by
  cases part <;> cases write <;> cases h <;> rfl

theorem of_heed_other (h : part.write? write = none) :
    part.of (p.heed settings write s) = part.of p := by
  cases part with
  | name => exact Procedure.name_heed_other h
  | schema => exact Procedure.schema_heed_other h

theorem concedes_name (h : p.acceptsName settings value s = true) :
    name.Concedes settings p ⟨value, s⟩ := by
  simp only [Procedure.acceptsName, Bool.and_eq_true, Bool.or_eq_true, beq_iff_eq] at h
  obtain ⟨_, (hover | hsame) | heffective⟩ := h
  · exact .inl hover
  · exact .inr (.inl hsame.symm)
  · cases hvalue : p.name.value with
    | some x =>
        rw [Procedure.effectiveName, hvalue, Option.getD_some] at heffective
        exact .inr (.inl (heffective.trans hvalue.symm))
    | none =>
        rw [Procedure.effectiveName, hvalue, Option.getD_none] at heffective
        subst heffective
        exact .inr (.inr ⟨hvalue, Option.some_ne_none _, rfl⟩)

theorem concedes_schema (h : p.acceptsSchema settings value s = true) :
    schema.Concedes settings p ⟨value, s⟩ := by
  simp only [Procedure.acceptsSchema, Bool.or_eq_true, beq_iff_eq, effectiveSchema_eq] at h
  obtain hover | heffective := h
  · exact .inl hover
  · cases hvalue : p.schema.value with
    | some x =>
        rw [hvalue, Option.some_or] at heffective
        exact .inr (.inl (heffective.symm.trans hvalue.symm))
    | none =>
        rw [hvalue, Option.none_or] at heffective
        by_cases hnone : value = none
        · exact .inr (.inl (hnone.trans hvalue.symm))
        · exact .inr (.inr ⟨hvalue, hnone, heffective.symm⟩)

theorem concedes_of_accepts (h : part.write? write = some value)
    (haccepts : p.accepts settings write s = true) : part.Concedes settings p ⟨value, s⟩ := by
  cases part with
  | name =>
      cases write with
      | name v =>
          cases h
          exact concedes_name haccepts
      | _ => cases h
  | schema =>
      cases write with
      | schema v =>
          cases h
          exact concedes_schema haccepts
      | _ => cases h

end Part

/-! ## What accepted calls leave -/

/-- What calls leave of a part when `c` is the last one at the strongest source.  Its value stays,
and the weaker calls after it repeat it; but where it has no value, `defaulted` tells which one has
taken its place. -/
structure Stamped (before : List Call) (c : Call) (after : List Call)
    (defaulted : Option String → Prop) (t : Tracked (Option String)) : Prop where
  atMost : ∀ b ∈ before, b.source ≤ c.source
  below : ∀ b ∈ after, b.source < c.source
  source : t.source = some c.source
  last : (c :: after).getLast?.map Call.value = some t.value
  value : (t.value = c.value ∧ ∀ b ∈ after, b.value = c.value) ∨
    c.value = none ∧ t.value ≠ none ∧ defaulted t.value

section Stamped

variable {before after : List Call} {c d : Call} {defaulted defaulted' : Option String → Prop}
  {t : Tracked (Option String)}

theorem Stamped.mono (h : Stamped before c after defaulted t)
    (hsub : ∀ value, defaulted value → defaulted' value) :
    Stamped before c after defaulted' t where
  atMost := h.atMost
  below := h.below
  source := h.source
  last := h.last
  value := h.value.imp_right fun ⟨hnone, hsome, hfell⟩ => ⟨hnone, hsome, hsub _ hfell⟩

/-- The first call is the strongest so far. -/
theorem stamped_first (c : Call) (h : t.source = none) :
    Stamped [] c [] defaulted (t.set c.value c.source) where
  atMost _ hb := by cases hb
  below _ hb := by cases hb
  source := by rw [Tracked.set_source, h, Source.max_none]
  last := rfl
  value := .inl ⟨rfl, fun _ hb => by cases hb⟩

/-- **A call that is strong enough** takes the place of all calls before it. -/
theorem Stamped.stronger (h : Stamped before c after defaulted t)
    (hover : d.source.overrides t.source = true) :
    Stamped (before ++ c :: after) d [] defaulted (t.set d.value d.source) := by
  have hle : c.source ≤ d.source := by
    rw [h.source, Source.overrides_some] at hover
    exact hover
  refine ⟨?_, ?_, ?_, rfl, .inl ⟨rfl, ?_⟩⟩
  · intro b hb
    rcases List.mem_append.1 hb with hbefore | hlater
    · exact Source.le_trans (h.atMost b hbefore) hle
    · rcases List.mem_cons.1 hlater with rfl | hafter
      · exact hle
      · exact Source.le_trans (Nat.le_of_lt (h.below b hafter)) hle
  · intro b hb
    cases hb
  · rw [Tracked.set_source, Source.max_of_overrides hover]
  · intro b hb
    cases hb

/-- **A weaker call** that is accepted repeats what is recorded, or it puts a default there. -/
theorem Stamped.weaker (h : Stamped before c after defaulted t)
    (hweak : d.source.overrides t.source ≠ true)
    (hvalue : d.value = t.value ∨ t.value = none ∧ d.value ≠ none ∧ defaulted d.value) :
    Stamped before c (after ++ [d]) defaulted (t.set d.value d.source) := by
  refine ⟨h.atMost, ?_, ?_, ?_, ?_⟩
  · intro b hb
    rcases List.mem_append.1 hb with hold | hnew
    · exact h.below b hold
    · rw [List.mem_singleton.1 hnew]
      rw [h.source, ne_eq, Source.overrides_some] at hweak
      exact Source.lt_of_not_le hweak
  · rw [Tracked.set_source, Source.some_max_of_not_overrides hweak, h.source]
  · rw [← List.cons_append, List.getLast?_concat]
    rfl
  · rcases h.value with ⟨hkept, hall⟩ | ⟨hnone, hsome, hfell⟩
    · rcases hvalue with hsame | ⟨hempty, hnew, hfalls⟩
      · left
        refine ⟨hsame.trans hkept, ?_⟩
        intro b hb
        rcases List.mem_append.1 hb with hold | hlast
        · exact hall b hold
        · rw [List.mem_singleton.1 hlast]
          exact hsame.trans hkept
      · exact .inr ⟨hkept.symm.trans hempty, hnew, hfalls⟩
    · right
      rcases hvalue with hsame | ⟨hempty, _⟩
      · rw [Tracked.set_value, hsame]
        exact ⟨hnone, hsome, hfell⟩
      · exact absurd hempty hsome

/-- What calls leave of a part: nothing where there are none, and else what is stamped by the last
one at the strongest source. -/
def Leave (calls : List Call) (defaulted : Option String → Prop) (t : Tracked (Option String)) :
    Prop :=
  calls = [] ∧ t = .unset none ∨
    ∃ before c after, calls = before ++ c :: after ∧ Stamped before c after defaulted t

theorem Leave.mono {calls : List Call} (h : Leave calls defaulted t)
    (hsub : ∀ value, defaulted value → defaulted' value) : Leave calls defaulted' t := by
  rcases h with hnil | ⟨before, c, after, hcalls, hstamped⟩
  · exact .inl hnil
  · exact .inr ⟨before, c, after, hcalls, hstamped.mono hsub⟩

/-- **One accepted call**: it is strong enough, or it repeats what is recorded, or it puts a default
there. -/
theorem Leave.call {calls : List Call} (h : Leave calls defaulted t)
    (hvalue : d.source.overrides t.source = true ∨ d.value = t.value ∨
      t.value = none ∧ d.value ≠ none ∧ defaulted d.value) :
    Leave (calls ++ [d]) defaulted (t.set d.value d.source) := by
  right
  rcases h with ⟨rfl, rfl⟩ | ⟨before, c, after, rfl, hstamped⟩
  · exact ⟨[], d, [], rfl, stamped_first d rfl⟩
  · by_cases hover : d.source.overrides t.source = true
    · exact ⟨before ++ c :: after, d, [], rfl, hstamped.stronger hover⟩
    · exact ⟨before, c, after ++ [d], by simp,
        hstamped.weaker hover (hvalue.resolve_left hover)⟩

/-- Whether one of the calls has brought what is recorded at the source that is recorded. -/
def Honest (calls : List Call) (t : Tracked (Option String)) : Prop :=
  ∀ s, t.source = some s → ⟨t.value, s⟩ ∈ calls

/-- **When the record is honest**: it is, unless a default has taken the place of no value, and even
then if an earlier call at the strongest source has brought that default. -/
theorem Stamped.honest_iff (h : Stamped before c after defaulted t) :
    Honest (before ++ c :: after) t ↔ t.value = c.value ∨ ⟨t.value, c.source⟩ ∈ before := by
  have hone : Honest (before ++ c :: after) t ↔ ⟨t.value, c.source⟩ ∈ before ++ c :: after := by
    unfold Honest
    rw [h.source]
    simp only [Option.some.injEq, forall_eq']
  rw [hone, List.mem_append, List.mem_cons]
  constructor
  · rintro (hbefore | hthis | hafter)
    · exact .inr hbefore
    · exact .inl (congrArg Call.value hthis)
    · -- The calls after it are weaker.
      exact absurd (h.below _ hafter) (Nat.lt_irrefl _)
  · rintro (hsame | hbefore)
    · exact .inr (.inl (by rw [hsame]))
    · exact .inl hbefore

end Stamped

/-! ## Runs -/

/-- The calls for a part that were granted, in their order. -/
def accepted (part : Part) (ref : ProcedureRef) (steps : List Step) : List Call :=
  callsFor part.write? ref (steps.filter Step.granted)

theorem accepted_append (part : Part) (ref : ProcedureRef) (steps : List Step) (s : Step) :
    accepted part ref (steps ++ [s]) = accepted part ref steps ++ accepted part ref [s] := by
  unfold accepted callsFor
  rw [List.filter_append, List.filterMap_append]

theorem accepted_single (part : Part) (ref : ProcedureRef) (s : Step) : accepted part ref [s] =
    if s.granted then (((s.request? ref).bind fun (w, source) =>
      (part.write? w).map fun value => (⟨value, source⟩ : Call))).toList else [] := by
  unfold accepted callsFor
  rw [List.filter_singleton]
  cases s.granted with
  | false => rfl
  | true =>
      simp only [cond_true, if_true, List.filterMap_cons, List.filterMap_nil]
      split
      · next hnone => rw [hnone]; rfl
      · next hsome => rw [hsome]; rfl

namespace Workspace

variable {w w' : Workspace} {c : Command} {a : Except Error Outcome} {ref : ProcedureRef}
  {m : Model} {p : Procedure} {steps : List Step} {part : Part}

/-- Whether some step has named, for a part without a value, the default that applied right then. -/
def Defaulted (part : Part) (ref : ProcedureRef) (steps : List Step) (value : Option String) :
    Prop :=
  ∃ past step later v m p s, steps = past ++ step :: later ∧ FreeRun .empty past v ∧
    v.procedure? ref = some (m, p) ∧ accepted part ref [step] = [⟨value, s⟩] ∧
    (part.of p).value = none ∧ part.fallback m.settings p = value

theorem Defaulted.append {value : Option String} (h : Defaulted part ref steps value)
    (s : Step) : Defaulted part ref (steps ++ [s]) value := by
  obtain ⟨past, step, later, v, m, p, source, rfl, hrest⟩ := h
  exact ⟨past, step, later ++ [s], v, m, p, source, by simp, hrest⟩

/-- **A call that is carried out is granted if and only if it is accepted**, and the procedure was
writable. -/
theorem execute_granted {write : Procedure.Write} {s : Source} {o : Outcome}
    (hreq : c.request? ref = some (write, s)) (h : w.execute c = some (w', .ok o))
    (hp : w.procedure? ref = some (m, p)) :
    p.isWritable m.settings = true ∧
      (⟨c, .ok o⟩ : Step).granted = p.accepts m.settings write s := by
  have hwrite : w.execute (.write ref write s) = some (w', .ok o) →
      p.isWritable m.settings = true ∧
        (⟨c, .ok o⟩ : Step).granted = p.accepts m.settings write s := by
    intro hdoes
    rw [execute_write hp write s, Option.some.injEq, Prod.mk.injEq] at hdoes
    obtain ⟨written, hwritten, rfl⟩ := map_eq_ok_iff.1 hdoes.2
    obtain ⟨hopen, _, rfl⟩ := Procedure.write_eq_ok_iff.1 hwritten
    refine ⟨hopen, ?_⟩
    cases haccepts : p.accepts m.settings write s <;> simp [Step.granted]
  rcases Command.request?_eq_some hreq with ⟨statement, rfl, hasks, rfl⟩ | ⟨da, rfl, rfl⟩ | rfl
  · simp only [execute] at h
    obtain ⟨n, q, q', hq, hchange, _⟩ := changeProcedure_ok h
    obtain ⟨rfl, rfl⟩ : n = m ∧ q = p := by simpa using hq.symm.trans hp
    obtain ⟨_, hconfigured, heq⟩ := map_eq_ok_iff.1 hchange
    cases heq
    obtain ⟨hallowed, _⟩ :=
      Procedure.overwrite_eq_ok (Procedure.overwrite_of_configure hasks hconfigured)
    obtain ⟨hopen, haccepts⟩ := Bool.and_eq_true_iff.1 hallowed
    exact ⟨hopen, haccepts.symm⟩
  · exact hwrite h
  · exact hwrite h

/-- **A part after a step**: it is as it was, or an accepted call for it is recorded. -/
theorem step_accepted (part : Part) (hsingle : c.isSingle = true)
    (h : w.execute c = some (w', a)) (hp : w.procedure? ref = some (m, p)) :
    ∃ m' p', w'.procedure? ref = some (m', p') ∧
      (accepted part ref [⟨c, a⟩] = [] ∧ part.of p' = part.of p ∨
        ∃ b, accepted part ref [⟨c, a⟩] = [b] ∧ part.of p' = (part.of p).set b.value b.source ∧
          part.Concedes m.settings p b) := by
  obtain ⟨m', p', hp', _, hstep⟩ := step_record hsingle h hp
  refine ⟨m', p', hp', ?_⟩
  rw [accepted_single]
  cases hreq : Step.request? ref ⟨c, a⟩ with
  | none =>
      rw [hreq] at hstep
      left
      refine ⟨by simp, ?_⟩
      cases part with
      | name => exact hstep.1
      | schema => exact hstep.2
  | some request =>
      obtain ⟨write, s⟩ := request
      rw [hreq] at hstep
      obtain ⟨rfl, _⟩ := hstep
      cases a with
      | error x => cases hreq
      | ok o =>
          rw [(execute_granted hreq h hp).2]
          cases hpart : part.write? write with
          | none => exact .inl ⟨by simp [hpart], part.of_heed_other hpart⟩
          | some value =>
              cases haccepts : p.accepts m.settings write s with
              | false => exact .inl ⟨rfl, by rw [Procedure.heed, haccepts]; rfl⟩
              | true =>
                  refine .inr ⟨⟨value, s⟩, by simp [hpart], ?_,
                    part.concedes_of_accepts hpart haccepts⟩
                  rw [Procedure.heed, haccepts, if_pos rfl, part.of_record hpart]

/-- A record that is not there is asked for nothing. -/
theorem accepted_absent (part : Part) (h : w.execute c = some (w', a))
    (hp : w.procedure? ref = none) : accepted part ref [⟨c, a⟩] = [] := by
  have hreq : c.request? ref = none := by
    rw [Option.eq_none_iff_forall_ne_some]
    rintro ⟨write, s⟩ hreq
    rcases Command.request?_eq_some hreq with ⟨statement, rfl, _⟩ | ⟨da, rfl, _⟩ | rfl <;>
      simp [execute, changeProcedure, hp] at h
  rw [accepted_single]
  cases a with
  | error x => rfl
  | ok o => simp [Step.request?, hreq]

theorem Run.accepted_absent (part : Part) (h : FreeRun .empty steps w)
    (hp : w.procedure? ref = none) : accepted part ref steps = [] := by
  induction h with
  | nil => rfl
  | @snoc steps v v' c a _ single _ does ih =>
      have hv : v.procedure? ref = none := (execute_effect single does).absent hp
      rw [accepted_append, ih hv, Workspace.accepted_absent part does hv]
      rfl

/-- What was asked for by a call that was granted. -/
theorem request_of_mem_accepted {b : Call} (h : b ∈ accepted part ref [⟨c, a⟩]) :
    ∃ o write, a = .ok o ∧ (⟨c, .ok o⟩ : Step).granted = true ∧
      c.request? ref = some (write, b.source) ∧ part.write? write = some b.value := by
  rw [accepted_single] at h
  split at h
  · next hgranted =>
      rw [Option.mem_toList, Option.bind_eq_some_iff] at h
      obtain ⟨⟨write, source⟩, hreq, hmap⟩ := h
      obtain ⟨value, hvalue, rfl⟩ := Option.map_eq_some_iff.1 hmap
      cases a with
      | error x => cases hreq
      | ok o => exact ⟨o, write, rfl, hgranted, hreq, hvalue⟩
  · cases h

/-- **Every accepted call has its moment** in the run: its command was allowed there, and the
record, which has stayed since, accepted what it asked for. -/
theorem Run.exists_accepted {ok : List Step → Command → Prop} {b : Call}
    (h : Run ok .empty steps w) (hb : b ∈ accepted part ref steps)
    (hp : w.procedure? ref = some (m, p)) :
    ∃ (past : List Step) (v v' : Workspace) (c : Command) (o : Outcome) (m₁ : Model)
      (p₁ : Procedure) (write : Procedure.Write),
      ok past c ∧ v.execute c = some (v', .ok o) ∧ v.procedure? ref = some (m₁, p₁) ∧
      Remains m₁ p₁ m p ∧ c.request? ref = some (write, b.source) ∧
      part.write? write = some b.value ∧ p₁.isWritable m₁.settings = true ∧
      p₁.accepts m₁.settings write b.source = true := by
  induction h generalizing m p with
  | nil => cases hb
  | @snoc steps v v' c a hbefore single allowed does ih =>
      cases hv : v.procedure? ref with
      | none =>
          -- Nothing was asked of a record that is not there.
          rw [accepted_append, Run.accepted_absent part (hbefore.mono fun _ _ _ => trivial) hv,
            Workspace.accepted_absent part does hv] at hb
          cases hb
      | some found =>
          obtain ⟨m₁, p₁⟩ := found
          obtain ⟨m₂, p₂, hp₂, hremains, _⟩ := step_record single does hv
          obtain ⟨rfl, rfl⟩ : m₂ = m ∧ p₂ = p := by simpa using hp₂.symm.trans hp
          rw [accepted_append, List.mem_append] at hb
          rcases hb with hold | hnew
          · obtain ⟨past, u, u', d, o, m₀, p₀, write, hok, hdoes, hu, hstays, hrest⟩ := ih hold hv
            exact ⟨past, u, u', d, o, m₀, p₀, write, hok, hdoes, hu, hstays.trans hremains, hrest⟩
          · obtain ⟨o, write, rfl, hgranted, hreq, hwrite⟩ := request_of_mem_accepted hnew
            obtain ⟨hopen, haccepts⟩ := execute_granted hreq does hv
            exact ⟨steps, v, v', c, o, m₁, p₁, write, allowed, does, hv, hremains, hreq, hwrite,
              hopen, haccepts.symm.trans hgranted⟩

/-- **What a run leaves of a name or a schema.** -/
theorem Run.leaves (part : Part) (h : FreeRun .empty steps w)
    (hp : w.procedure? ref = some (m, p)) :
    Leave (accepted part ref steps) (Defaulted part ref steps) (part.of p) := by
  induction h generalizing m p with
  | nil => cases hp
  | @snoc steps v v' c a hbefore single _ does ih =>
      rw [accepted_append]
      cases hv : v.procedure? ref with
      | none =>
          -- Records are fresh when they are made, and nothing has been asked of them.
          rw [Run.accepted_absent part hbefore hv, Workspace.accepted_absent part does hv]
          refine .inl ⟨rfl, ?_⟩
          rcases (execute_effect single does).procedure_before hp with
            ⟨m₁, p₁, hthere, _⟩ | ⟨_, _, owner, op, s, rfl, _⟩
          · rw [hv] at hthere
            cases hthere
          · cases part <;> rfl
      | some found =>
          obtain ⟨m₁, p₁⟩ := found
          obtain ⟨m₂, p₂, hp₂, hstep⟩ := step_accepted part single does hv
          obtain ⟨rfl, rfl⟩ : m₂ = m ∧ p₂ = p := by simpa using hp₂.symm.trans hp
          have hleave := (ih hv).mono fun _ h => h.append ⟨c, a⟩
          rcases hstep with ⟨hnone, hkept⟩ | ⟨b, hb, hset, hconcedes⟩
          · rw [hnone, hkept, List.append_nil]
            exact hleave
          · rw [hb, hset]
            refine hleave.call (hconcedes.imp_right (Or.imp_right ?_))
            rintro ⟨hempty, hnew, hdefault⟩
            exact ⟨hempty, hnew, steps, ⟨c, a⟩, [], v, m₁, p₁, b.source, rfl, hbefore, hv, hb,
              hempty, hdefault.symm⟩

/-- **Where the name and the schema of a procedure come from**, at any moment of any run.  Without
an accepted call for it, a part is unset.  Otherwise the strongest source is recorded, with the
value of the last accepted call; and that value is the one of the last call at the strongest source,
or it is a default that a weaker call has named while there was no value.  The record is honest in
the first case, and in the second one only if an earlier call has brought the default at that
source. -/
theorem provenance (h : FreeRun .empty steps w) (hp : w.procedure? ref = some (m, p))
    (part : Part) :
    (accepted part ref steps = [] → part.of p = .unset none) ∧
    (accepted part ref steps ≠ [] → ∃ before c after,
      accepted part ref steps = before ++ c :: after ∧
      Stamped before c after (Defaulted part ref steps) (part.of p) ∧
      (Honest (accepted part ref steps) (part.of p) ↔
        (part.of p).value = c.value ∨ ⟨(part.of p).value, c.source⟩ ∈ before)) := by
  rcases Run.leaves part h hp with ⟨hnil, hunset⟩ | ⟨before, c, after, hcalls, hstamped⟩
  · exact ⟨fun _ => hunset, fun hsome => absurd hnil hsome⟩
  · refine ⟨?_, fun _ => ⟨before, c, after, hcalls, hstamped, ?_⟩⟩
    · intro hnil
      rw [hcalls] at hnil
      cases before <;> cases hnil
    · rw [hcalls]
      exact hstamped.honest_iff

/-- A name and a schema that explicit code has asked the defaults for, and that conventions have
named afterwards. -/
def defaulted : List Step × Workspace :=
  (carryOn (IsOpen []) [] .empty
    [.createModel .standard, .setDefaultSchema 0 (some "dbo") .convention,
      .addType 0 "Blog" none, .createRegistry 0, .set ⟨0, 0⟩ ⟨0, 0, "Blog"⟩ .insert,
      .setConvention ⟨0, 0⟩ 0 ⟨0, 0, "Blog"⟩ .insert false, .configure ⟨0, 0⟩ .defaultName,
      .suggest ⟨0, 0⟩ (.name (some "Blog_Insert")) false, .configure ⟨0, 0⟩ (.schema none),
      .suggest ⟨0, 0⟩ (.schema (some "dbo")) false]).get rfl

theorem provenance_defaulted :
    FreeRun .empty defaulted.1 defaulted.2 ∧
    ∃ m p before c after, defaulted.2.procedure? ⟨0, 0⟩ = some (m, p) ∧
      accepted .schema ⟨0, 0⟩ defaulted.1 = before ++ c :: after ∧
      Stamped before c after (Defaulted .schema ⟨0, 0⟩ defaulted.1) p.schema ∧
      (Honest (accepted .schema ⟨0, 0⟩ defaulted.1) p.schema ↔
        p.schema.value = c.value ∨ ⟨p.schema.value, c.source⟩ ∈ before) := by
  have hsession : Session defaulted.1 defaulted.2 := Run.carryOn .nil (Option.some_get rfl).symm
  have hrun : FreeRun .empty defaulted.1 defaulted.2 := hsession.mono fun _ _ _ => trivial
  have hp : defaulted.2.procedure? ⟨0, 0⟩ = some _ := rfl
  obtain ⟨before, c, after, hcalls, hstamped, hhonest⟩ :=
    (provenance hrun hp .schema).2 (by decide)
  exact ⟨hrun, _, _, before, c, after, hp, hcalls, hstamped, hhonest⟩

/-- **Nobody has brought** this name and this schema at the explicit source. -/
theorem stamped_by_nobody : Session defaulted.1 defaulted.2 ∧
    ∃ m p, defaulted.2.procedure? ⟨0, 0⟩ = some (m, p) ∧
      p.schema = ⟨some "dbo", some .explicit⟩ ∧
      accepted .schema ⟨0, 0⟩ defaulted.1 = [⟨none, .explicit⟩, ⟨some "dbo", .convention⟩] ∧
      ¬ Honest (accepted .schema ⟨0, 0⟩ defaulted.1) p.schema ∧
      p.name = ⟨some "Blog_Insert", some .explicit⟩ ∧
      ¬ Honest (accepted .name ⟨0, 0⟩ defaulted.1) p.name := by
  refine ⟨Run.carryOn .nil (Option.some_get rfl).symm, _, _, rfl, rfl, by decide, ?_, rfl, ?_⟩
  · intro hhonest
    exact absurd (hhonest .explicit rfl) (by decide)
  · intro hhonest
    exact absurd (hhonest .explicit rfl) (by decide)

end Workspace

end ProcedureMapping
