import Mathlib.Data.List.Induction
import ProcedureMapping.Proofs.Statements

/-!
# Precedence

Names and schemas are contributed by **calls**, each of which brings a value and a source.  The
calls at the strongest source decide, and of these the last one; the weaker calls do not count,
wherever they stand.

A call reaches a procedure through an explicit statement, a convention or the gateway, and the
procedure **heeds** it: it records the call where it accepts it.  While the procedure is writable,
no call is refused but an explicit identifier that is too long.

Main statements:

* `topSource_eq_some_iff` — the strongest source is the maximum;
* `decisive_append` — what one more call decides;
* `execute_request`, `step_record` — what a call, and any step, does to a record;
* `Run.overLong` — which calls a run refuses.
-/

namespace ProcedureMapping

/-! ## Calls -/

/-- A contribution to a name or a schema. -/
structure Call where
  value : Option String
  source : Source
  deriving DecidableEq

/-- The strongest source among the calls. -/
def topSource (calls : List Call) : Option Source :=
  calls.foldl (fun top c => some (c.source.max top)) none

/-- The calls at the strongest source, in their order. -/
def deciding (calls : List Call) : List Call :=
  calls.filter fun c => topSource calls = some c.source

/-- The last call at the strongest source. -/
def decisive (calls : List Call) : Option Call := (deciding calls).getLast?

section Calls

variable {calls : List Call} {c : Call}

/-- A weaker source leaves the recorded one. -/
theorem Source.some_max_of_not_overrides {s : Source} {r : Option Source}
    (h : s.overrides r ≠ true) : some (s.max r) = r := by
  cases r with
  | none => exact absurd rfl h
  | some t => rw [max_of_not_overrides (Bool.eq_false_iff.2 h)]

theorem Source.max_some_eq_iff {s t u : Source} :
    s.max (some t) = u ↔ (s = u ∨ t = u) ∧ s ≤ u ∧ t ≤ u := by
  cases s <;> cases t <;> cases u <;> decide

@[simp] theorem topSource_append (calls : List Call) (c : Call) :
    topSource (calls ++ [c]) = some (c.source.max (topSource calls)) := by
  simp [topSource, List.foldl_append]

theorem topSource_eq_none_iff : topSource calls = none ↔ calls = [] := by
  induction calls using List.reverseRecOn with
  | nil => exact iff_of_true rfl rfl
  | append_singleton calls c _ => simp

/-- **The strongest source is the maximum.** -/
theorem topSource_eq_some_iff {s : Source} : topSource calls = some s ↔
    (∃ c ∈ calls, c.source = s) ∧ ∀ c ∈ calls, c.source ≤ s := by
  induction calls using List.reverseRecOn generalizing s with
  | nil => simp [topSource]
  | append_singleton calls c ih =>
      rw [topSource_append, Option.some.injEq]
      cases htop : topSource calls with
      | none =>
          have hnil : calls = [] := topSource_eq_none_iff.1 htop
          subst hnil
          constructor
          · rintro rfl
            exact ⟨⟨c, by simp, rfl⟩, by simp [Source.le_refl]⟩
          · rintro ⟨⟨d, hd, rfl⟩, _⟩
            have hdc : d = c := by simpa using hd
            rw [hdc, Source.max_none]
      | some t =>
          obtain ⟨⟨d, hd, hdt⟩, hle⟩ := ih.1 htop
          rw [Source.max_some_eq_iff]
          constructor
          · rintro ⟨hone, hc, ht⟩
            refine ⟨?_, ?_⟩
            · rcases hone with rfl | rfl
              · exact ⟨c, by simp, rfl⟩
              · exact ⟨d, List.mem_append_left _ hd, hdt⟩
            · intro b hb
              rcases List.mem_append.1 hb with hold | hnew
              · exact Source.le_trans (hle b hold) ht
              · rw [List.mem_singleton.1 hnew]
                exact hc
          · rintro ⟨⟨b, hb, rfl⟩, hall⟩
            have ht : t ≤ b.source := hdt ▸ hall d (List.mem_append_left _ hd)
            refine ⟨?_, hall c (by simp), ht⟩
            rcases List.mem_append.1 hb with hold | hnew
            · exact .inr (Source.le_antisymm ht (hle b hold))
            · exact .inl (by rw [List.mem_singleton.1 hnew])

/-- **What one more call decides**: it decides alone unless a stronger call came before. -/
theorem decisive_append (calls : List Call) (c : Call) : decisive (calls ++ [c]) =
    if c.source.overrides (topSource calls) then some c else decisive calls := by
  unfold decisive deciding
  rw [topSource_append, List.filter_append]
  by_cases hover : c.source.overrides (topSource calls) = true
  · rw [Source.max_of_overrides hover, if_pos hover]
    simp
  · rw [if_neg hover]
    cases htop : topSource calls with
    | none =>
        rw [htop] at hover
        exact absurd rfl hover
    | some t =>
        rw [htop] at hover
        have hne : t ≠ c.source := by
          rintro rfl
          exact hover ((Source.overrides_some _ _).2 (Source.le_refl _))
        rw [Source.max_of_not_overrides (Bool.eq_false_iff.2 hover)]
        simp [hne]

theorem decisive_eq_none_iff : decisive calls = none ↔ calls = [] := by
  induction calls using List.reverseRecOn with
  | nil => exact iff_of_true rfl rfl
  | append_singleton calls c ih =>
      rw [decisive_append]
      by_cases hover : c.source.overrides (topSource calls) = true
      · simp [hover]
      · rw [if_neg hover, ih]
        constructor
        · rintro rfl
          exact absurd rfl hover
        · intro h
          simp at h

/-- The decisive call is at the strongest source. -/
theorem decisive_source (h : decisive calls = some c) : topSource calls = some c.source := by
  have hmem : c ∈ deciding calls := List.mem_of_getLast? h
  simpa using (List.mem_filter.1 hmem).2

end Calls

/-! ## Requests -/

/-- What a command asks of a procedure: a write, and the source that it is asked at. -/
def Command.request? (ref : ProcedureRef) : Command → Option (Procedure.Write × Source)
  | configure p statement =>
      if p = ref then statement.write?.map fun w => (w, .explicit) else none
  | suggest p w da => if p = ref then some (w, .ofConvention da) else none
  | write p w s => if p = ref then some (w, s) else none
  | _ => none

theorem Command.Makes.request {c : Command} {ref : ProcedureRef} {w : Procedure.Write}
    {s : Source} (h : c.Makes ref.model (.procedure ref.id (.write w s))) :
    c.request? ref = some (w, s) := by
  generalize hi : ref.model = i at h
  generalize hj : ref.id = j at h
  have hsame : ∀ p : ProcedureRef, i = p.model → j = p.id → p = ref := by
    rintro ⟨_, _⟩ rfl rfl
    cases ref
    simp_all
  cases h with
  | @configureWrite p _ _ hasks => simp [request?, hsame p rfl rfl, hasks]
  | @suggest p => simp [request?, hsame p rfl rfl]
  | @write p => simp [request?, hsame p rfl rfl]

/-- A request is an explicit statement, a convention or a write through the gateway. -/
theorem Command.request?_eq_some {c : Command} {ref : ProcedureRef} {w : Procedure.Write}
    {s : Source} (h : c.request? ref = some (w, s)) :
    (∃ statement : Procedure.Statement, c = .configure ref statement ∧
      statement.write? = some w ∧ s = .explicit) ∨
    (∃ da, c = .suggest ref w da ∧ s = .ofConvention da) ∨ c = .write ref w s := by
  cases c with simp only [request?, reduceCtorEq, Option.ite_none_right_eq_some] at h
  | configure p statement =>
      obtain ⟨rfl, h⟩ := h
      obtain ⟨v, hv, heq⟩ := Option.map_eq_some_iff.1 h
      cases heq
      exact .inl ⟨statement, rfl, hv, rfl⟩
  | suggest p v da =>
      obtain ⟨rfl, h⟩ := h
      cases h
      exact .inr (.inl ⟨da, rfl, rfl⟩)
  | write p v s' =>
      obtain ⟨rfl, h⟩ := h
      cases h
      exact .inr (.inr rfl)

/-- The request of a step, unless it was refused. -/
def Step.request? (ref : ProcedureRef) (s : Step) : Option (Procedure.Write × Source) :=
  match s.answer with
  | .ok _ => s.command.request? ref
  | .error _ => none

/-- The calls for one part of a procedure among the steps. -/
def callsFor (part : Procedure.Write → Option (Option String)) (ref : ProcedureRef)
    (steps : List Step) : List Call :=
  steps.filterMap fun s => (s.request? ref).bind fun (w, source) =>
    (part w).map fun value => ⟨value, source⟩

theorem callsFor_append (part : Procedure.Write → Option (Option String)) (ref : ProcedureRef)
    (steps : List Step) (s : Step) :
    callsFor part ref (steps ++ [s]) = callsFor part ref steps ++ callsFor part ref [s] :=
  List.filterMap_append

namespace Procedure

/-- Only a name write changes the name. -/
theorem name_apply (p : Procedure) (change : Change) :
    (p.apply change).name = p.name ∨ ∃ value s, change = .write (.name value) s := by
  rcases change with ⟨w, s⟩ | _ | _ | _
  · cases w with
    | name value => exact .inr ⟨value, s, rfl⟩
    | _ => exact .inl rfl
  · exact .inl rfl
  · exact .inl rfl
  · exact .inl rfl

/-- Only a schema write changes the schema. -/
theorem schema_apply (p : Procedure) (change : Change) :
    (p.apply change).schema = p.schema ∨ ∃ value s, change = .write (.schema value) s := by
  rcases change with ⟨w, s⟩ | _ | _ | _
  · cases w with
    | schema value => exact .inr ⟨value, s, rfl⟩
    | _ => exact .inl rfl
  · exact .inl rfl
  · exact .inl rfl
  · exact .inl rfl

/-- The name that a write is about. -/
def Write.name? : Write → Option (Option String)
  | .name value => some value
  | _ => none

/-- The schema that a write is about. -/
def Write.schema? : Write → Option (Option String)
  | .schema value => some value
  | _ => none

/-- The identifier that a write brings for the name or the schema. -/
def Write.identifier? (w : Write) : Option (Option String) := w.name?.or w.schema?

/-- The procedure after a call, whether or not the call is accepted. -/
def heed (settings : ModelSettings) (p : Procedure) (w : Write) (s : Source) : Procedure :=
  if p.accepts settings w s then p.record w s else p

theorem heed_eq (settings : ModelSettings) (p : Procedure) (w : Write) (s : Source) :
    p.heed settings w s = p ∨ p.heed settings w s = p.apply (.write w s) := by
  unfold heed
  split
  · exact .inr rfl
  · exact .inl rfl

/-- Whatever is heeded but no name leaves the name alone. -/
theorem name_heed_other {settings : ModelSettings} {p : Procedure} {w : Write} {s : Source}
    (h : w.name? = none) : (p.heed settings w s).name = p.name := by
  rcases p.heed_eq settings w s with hsame | happly
  · rw [hsame]
  · rw [happly]
    rcases p.name_apply (.write w s) with hkept | ⟨value, _, heq⟩
    · exact hkept
    · cases heq
      cases h

/-- Whatever is heeded but no schema leaves the schema alone. -/
theorem schema_heed_other {settings : ModelSettings} {p : Procedure} {w : Write} {s : Source}
    (h : w.schema? = none) : (p.heed settings w s).schema = p.schema := by
  rcases p.heed_eq settings w s with hsame | happly
  · rw [hsame]
  · rw [happly]
    rcases p.schema_apply (.write w s) with hkept | ⟨value, _, heq⟩
    · exact hkept
    · cases heq
      cases h

theorem write_eq_heed {settings : ModelSettings} {p : Procedure} {w : Write} {s : Source}
    {r : Option Procedure} (h : p.write settings w s = .ok r) :
    r.getD p = p.heed settings w s := by
  obtain ⟨_, _, hr⟩ := write_eq_ok_iff.1 h
  rw [hr, heed]
  split <;> rfl

/-- A statement that asks for a write and is let through has written it. -/
theorem overwrite_of_configure {settings : ModelSettings} {p q : Procedure}
    {statement : Statement} {w : Write} (hw : statement.write? = some w)
    (h : p.configure settings statement = .ok q) : p.overwrite settings w = .ok q := by
  cases statement with
  | name value =>
      cases hw
      obtain ⟨_, _, hq⟩ := bind_eq_ok_iff.1 h
      exact hq
  | schema value =>
      cases hw
      cases value with
      | none => exact h
      | some value =>
          obtain ⟨_, _, hq⟩ := bind_eq_ok_iff.1 h
          exact hq
  | signature | select => cases hw
  | defaultName | annotate | unannotate | parameter =>
      cases hw
      exact h

theorem configure_eq_heed {settings : ModelSettings} {p q : Procedure} {statement : Statement}
    {w : Write} (hw : statement.write? = some w) (h : p.configure settings statement = .ok q) :
    q = p.heed settings w .explicit := by
  obtain ⟨r, hr, heq⟩ := bind_eq_ok_iff.1 (overwrite_of_configure hw h)
  rw [← write_eq_heed hr]
  exact (Except.ok.inj heq).symm

end Procedure

namespace Workspace

variable {w w' : Workspace} {c : Command} {ref : ProcedureRef} {steps : List Step}

theorem changeProcedure_write {write : Procedure.Write} {s : Source} {o : Outcome} {m : Model}
    {p : Procedure} (hp : w.procedure? ref = some (m, p))
    (h : (w.changeProcedure ref fun settings p =>
      (p.write settings write s).map (negotiated p)) = some (w', .ok o)) :
    w' = w.setModel ref.model (m.setProcedure ref.id (p.heed m.settings write s)) := by
  obtain ⟨n, q, q', hq, hchange, hw'⟩ := changeProcedure_ok h
  have hsame : (n, q) = (m, p) := Option.some.inj (hq.symm.trans hp)
  cases hsame
  obtain ⟨r, hr, heq⟩ := map_eq_ok_iff.1 hchange
  have hq' : q' = r.getD p := by
    cases r <;> cases heq <;> rfl
  rw [hw', hq', Procedure.write_eq_heed hr]

/-- **What a call does** that is not refused: the procedure heeds it. -/
theorem execute_request {write : Procedure.Write} {s : Source} {o : Outcome} {m : Model}
    {p : Procedure} (hreq : c.request? ref = some (write, s))
    (h : w.execute c = some (w', .ok o)) (hp : w.procedure? ref = some (m, p)) :
    w' = w.setModel ref.model (m.setProcedure ref.id (p.heed m.settings write s)) := by
  rcases Command.request?_eq_some hreq with ⟨statement, rfl, hv, rfl⟩ | ⟨da, rfl, rfl⟩ | rfl
  · simp only [execute] at h
    obtain ⟨n, q, q', hq, hchange, hw'⟩ := changeProcedure_ok h
    have hsame : (n, q) = (m, p) := Option.some.inj (hq.symm.trans hp)
    cases hsame
    obtain ⟨r, hr, heq⟩ := map_eq_ok_iff.1 hchange
    cases heq
    rw [hw', Procedure.configure_eq_heed hv hr]
  · exact changeProcedure_write hp h
  · exact changeProcedure_write hp h

theorem heed_same (settings : ModelSettings) (p : Procedure) (write : Procedure.Write)
    (s : Source) : (p.heed settings write s).owner = p.owner ∧
      (p.heed settings write s).operation = p.operation := by
  rcases p.heed_eq settings write s with hsame | happly
  · rw [hsame]
    exact ⟨rfl, rfl⟩
  · rw [happly]
    exact ⟨p.owner_apply _, p.operation_apply _⟩

/-- What stays of a record and its model: the owner, the operation and the configuration. -/
structure Remains (m : Model) (p : Procedure) (m' : Model) (p' : Procedure) : Prop where
  owner : p'.owner = p.owner
  operation : p'.operation = p.operation
  config : m'.settings.config = m.settings.config

theorem Remains.trans {m m' m'' : Model} {p p' p'' : Procedure} (h : Remains m p m' p')
    (h' : Remains m' p' m'' p'') : Remains m p m'' p'' where
  owner := h'.owner.trans h.owner
  operation := h'.operation.trans h.operation
  config := h'.config.trans h.config

theorem Remains.defaultName {m m' : Model} {p p' : Procedure} (h : Remains m p m' p') :
    p'.defaultName m'.settings = p.defaultName m.settings := by
  unfold Procedure.defaultName
  rw [h.owner, h.operation, h.config]

/-- A record that nothing was asked of has the name and the schema that it had. -/
theorem Effect.unasked {m : Model} {p : Procedure} (h : w.Effect c w')
    (hreq : c.request? ref = none) (hp : w.procedure? ref = some (m, p)) :
    ∃ m' p', w'.procedure? ref = some (m', p') ∧ Remains m p m' p' ∧ p'.name = p.name ∧
      p'.schema = p.schema := by
  have hquiet : ∀ write s, ¬ c.Makes ref.model (.procedure ref.id (.write write s)) := by
    intro write s hmakes
    rw [hmakes.request] at hreq
    cases hreq
  obtain ⟨m', p', hp', hafter⟩ := h.procedure_after hp
  refine ⟨m', p', hp', ?_⟩
  rcases hafter with ⟨rfl, rfl⟩ | ⟨e, hmakes, _, rfl, rfl | ⟨change, hacts, rfl⟩⟩
  · exact ⟨⟨rfl, rfl, rfl⟩, rfl, rfl⟩
  · exact ⟨⟨rfl, rfl, m.config_apply e⟩, rfl, rfl⟩
  · refine ⟨⟨p.owner_apply change, p.operation_apply change, m.config_apply e⟩, ?_, ?_⟩
    · rcases p.name_apply change with hsame | ⟨value, s, rfl⟩
      · exact hsame
      · cases hacts
        exact absurd hmakes (hquiet _ _)
    · rcases p.schema_apply change with hsame | ⟨value, s, rfl⟩
      · exact hsame
      · cases hacts
        exact absurd hmakes (hquiet _ _)

/-- **A record after a step** has heeded the request of the step; without one its name and its
schema are as they were. -/
theorem step_record {a : Except Error Outcome} {m : Model} {p : Procedure}
    (hsingle : c.isSingle = true) (h : w.execute c = some (w', a))
    (hp : w.procedure? ref = some (m, p)) :
    ∃ m' p', w'.procedure? ref = some (m', p') ∧ Remains m p m' p' ∧
      match Step.request? ref ⟨c, a⟩ with
      | some (write, s) => p' = p.heed m.settings write s ∧ m'.settings = m.settings
      | none => p'.name = p.name ∧ p'.schema = p.schema := by
  cases a with
  | error x =>
      have hsame : w' = w := execute_error hsingle h
      subst hsame
      exact ⟨m, p, hp, ⟨rfl, rfl, rfl⟩, rfl, rfl⟩
  | ok o =>
      have hstep : Step.request? ref ⟨c, .ok o⟩ = c.request? ref := rfl
      rw [hstep]
      cases hreq : c.request? ref with
      | none => exact (execute_effect hsingle h).unasked hreq hp
      | some request =>
          obtain ⟨write, s⟩ := request
          have hw' := execute_request hreq h hp
          obtain ⟨howner, hop⟩ := heed_same m.settings p write s
          rw [hw']
          exact ⟨_, _, procedure?_setProcedure hp (p.heed m.settings write s), ⟨howner, hop, rfl⟩,
            rfl, rfl⟩

/-- A record stays through every run. -/
theorem Run.remains {ok : List Step → Command → Prop} {m : Model} {p : Procedure}
    (h : Run ok w steps w') (hp : w.procedure? ref = some (m, p)) :
    ∃ m' p', w'.procedure? ref = some (m', p') ∧ Remains m p m' p' := by
  induction h with
  | nil => exact ⟨m, p, hp, rfl, rfl, rfl⟩
  | snoc _ single _ does ih =>
      obtain ⟨m₁, p₁, hp₁, hremains⟩ := ih
      obtain ⟨m₂, p₂, hp₂, hremains', _⟩ := step_record single does hp₁
      exact ⟨m₂, p₂, hp₂, hremains.trans hremains'⟩

/-! ## Refused calls -/

variable {m m' : Model} {p p' : Procedure}

/-- A procedure that is writable after a step was writable before it. -/
theorem writable_before (h : w.Effect c w') (hp : w.procedure? ref = some (m, p))
    (hp' : w'.procedure? ref = some (m', p')) (hopen : p'.isWritable m'.settings = true) :
    p.isWritable m.settings = true := by
  obtain ⟨m'', p'', hp'', hafter⟩ := h.procedure_after hp
  have hsame : (m'', p'') = (m', p') := Option.some.inj (hp''.symm.trans hp')
  cases hsame
  rcases hafter with ⟨rfl, rfl⟩ | ⟨e, _, _, rfl, hrecord⟩
  · exact hopen
  · unfold Procedure.isWritable at hopen ⊢
    rw [Bool.and_eq_true, Bool.not_eq_true', Bool.not_eq_true'] at hopen ⊢
    obtain ⟨hlive, hwritable⟩ := hopen
    refine ⟨?_, ?_⟩
    · rcases hrecord with rfl | ⟨change, _, rfl⟩
      · exact hlive
      · rw [Bool.eq_false_iff]
        intro hremoved
        rw [(p.removed_apply change).2 (.inl hremoved)] at hlive
        cases hlive
    · rw [Bool.eq_false_iff]
      intro hfinal
      rw [Model.readOnly_apply hfinal] at hwritable
      cases hwritable

/-- Why an identifier is refused while the procedure is writable: it is explicit and too long. -/
def OverLong (config : Config) (value : Option String) (s : Source) (x : Error) : Prop :=
  s = .explicit ∧ ∃ text, value = some text ∧ config.maxIdentifierLength.toNat < text.length ∧
    x = .invalidIdentifier text (.tooLong config.maxIdentifierLength.toNat)

section Refused

variable {write : Procedure.Write} {value : Option String} {s : Source} {x : Error}

theorem write_identifier_ok {settings : ModelSettings} (hopen : p.isWritable settings = true)
    (hvalue : write.identifier? = some value) (s : Source) :
    ∃ r, p.write settings write s = .ok r := by
  refine ⟨_, Procedure.write_eq_ok_iff.2 ⟨hopen, ?_, rfl⟩⟩
  cases write with
  | parameter => cases hvalue
  | _ => rfl

theorem overLong_of_tooLong {config : Config} {text : String}
    (h : Procedure.tooLong? config text = some x) : OverLong config (some text) .explicit x := by
  unfold Procedure.tooLong? at h
  split at h
  · next hlong =>
      cases h
      exact ⟨rfl, text, rfl, hlong, rfl⟩
  · cases h

theorem configure_identifier_error {settings : ModelSettings} {statement : Procedure.Statement}
    (hopen : p.isWritable settings = true) (hw : statement.write? = some write)
    (hvalue : write.identifier? = some value) (h : p.configure settings statement = .error x) :
    OverLong settings.config value .explicit x := by
  have hobjection := Procedure.configure_open_error hopen h
  cases statement with
  | name text =>
      cases hw
      cases hvalue
      exact overLong_of_tooLong hobjection
  | schema target =>
      cases hw
      cases target with
      | none => cases hobjection
      | some text =>
          cases hvalue
          exact overLong_of_tooLong hobjection
  | defaultName => cases hobjection
  | annotate | unannotate | parameter =>
      cases hw
      cases hvalue
  | signature | select => cases hw

theorem changeProcedure_identifier_ok (hp : w.procedure? ref = some (m, p))
    (hopen : p.isWritable m.settings = true) (hvalue : write.identifier? = some value) :
    (w.changeProcedure ref fun settings p =>
      (p.write settings write s).map (negotiated p)) ≠ some (w', .error x) := by
  intro h
  obtain ⟨n, q, hq, ⟨_, _, _, hr⟩ | ⟨y, hfail, _⟩⟩ := changeProcedure_eq_some h
  · cases hr
  · have hsame : (n, q) = (m, p) := Option.some.inj (hq.symm.trans hp)
    cases hsame
    obtain ⟨r, hr⟩ := write_identifier_ok (p := p) hopen hvalue s
    have hwrite := map_eq_error_iff.1 hfail
    rw [hr] at hwrite
    cases hwrite

/-- An identifier that is refused while the procedure is writable is explicit and too long. -/
theorem execute_overLong (hreq : c.request? ref = some (write, s))
    (hvalue : write.identifier? = some value) (h : w.execute c = some (w', .error x))
    (hp : w.procedure? ref = some (m, p)) (hopen : p.isWritable m.settings = true) :
    OverLong m.settings.config value s x := by
  rcases Command.request?_eq_some hreq with ⟨statement, rfl, hv, rfl⟩ | ⟨da, rfl, rfl⟩ | rfl
  · simp only [execute] at h
    obtain ⟨n, q, hq, ⟨_, _, _, hr⟩ | ⟨y, hfail, hr⟩⟩ := changeProcedure_eq_some h
    · cases hr
    · cases hr
      have hsame : (n, q) = (m, p) := Option.some.inj (hq.symm.trans hp)
      cases hsame
      exact configure_identifier_error hopen hv hvalue (map_eq_error_iff.1 hfail)
  · exact absurd h (changeProcedure_identifier_ok hp hopen hvalue)
  · exact absurd h (changeProcedure_identifier_ok hp hopen hvalue)

/-- **Which calls a run refuses**: while a procedure stays writable, every call for its name or its
schema gets through to it, but for explicit identifiers that are too long. -/
theorem Run.overLong (h : FreeRun w steps w') (hp : w.procedure? ref = some (m, p))
    (hp' : w'.procedure? ref = some (m', p')) (hopen : p'.isWritable m'.settings = true)
    {step : Step} (hstep : step ∈ steps) (hreq : step.command.request? ref = some (write, s))
    (hvalue : write.identifier? = some value) (hfail : step.answer = .error x) :
    OverLong m.settings.config value s x := by
  induction h generalizing m' p' with
  | nil => cases hstep
  | @snoc steps v v' c a before single _ does ih =>
      obtain ⟨m₁, p₁, hp₁, hremains⟩ := Run.remains before hp
      have hopen₁ := writable_before (execute_effect single does) hp₁ hp' hopen
      rcases List.mem_append.1 hstep with hold | hlast
      · exact ih hp₁ hopen₁ hold
      · rw [List.mem_singleton.1 hlast] at hreq hfail
        cases hfail
        rw [← hremains.config]
        exact execute_overLong hreq hvalue does hp₁ hopen₁

end Refused

end Workspace

end ProcedureMapping
