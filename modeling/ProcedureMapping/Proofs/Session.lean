import ProcedureMapping.Proofs.Frame

/-!
# Runs and sessions

A **run** is a sequence of commands that a workspace carries out one after another; a **step** is
such a command with its answer.  A `setUsing` is no step of its own: it is the run of its `set`
and of its statements (`Run.setUsing`).

A **session** is what can be done from outside.  It starts with the empty workspace, it gives
public commands only, and every handle that a command uses was handed out by an earlier answer:
a type by its registration, a registry by its making, and a handle to configure a procedure
explicitly by a `set`, the only command that hands one out.

Main statements:

* `Run.split`, `Run.unique` — a run can be cut anywhere, and its steps tell where it ends;
* `Run.setUsing`, `Session.setUsing` — a `setUsing` is a run, and keeps to a session;
* `execute_error`, `execute_set`, `execute_setConvention`, `execute_setDefaultSchema` — what a
  command does that is refused or not;
* `execute_kind` — which outcomes a command has;
* `Session.holds`, `Session.hasRegistry`, `Session.hasModel` — handles stay good.
-/

namespace ProcedureMapping

/-- A command that was carried out, and its answer. -/
structure Step where
  command : Command
  answer : Except Error Outcome

/-! ## Outcomes -/

/-- What an outcome is about. -/
inductive OutcomeKind where
  | done
  | applied
  | model
  | type
  | registry
  | procedure

def Outcome.kind : Outcome → OutcomeKind
  | done => .done
  | applied _ => .applied
  | model _ => .model
  | type _ => .type
  | registry _ => .registry
  | procedure _ => .procedure

/-- What kind of outcome a command has. -/
def Command.kind : Command → OutcomeKind
  | createModel _ => .model
  | addType .. => .type
  | createRegistry _ => .registry
  | set .. | setUsing .. | setConvention .. | remove .. | removeConvention ..
  | createProcedure .. => .procedure
  | annotate .. | unannotate .. | setDefaultSchema .. | suggest .. | write .. => .applied
  | finalize _ | configure .. | suggestSignature .. | bindSignature .. | restamp ..
  | detach _ => .done

/-! ## Handles -/

/-- Whether one of the steps was answered with `o`. -/
def Gave (past : List Step) (o : Outcome) : Prop := ∃ s ∈ past, s.answer = .ok o

def Command.isSet : Command → Bool
  | set .. => true
  | _ => false

def Command.isSetConvention : Command → Bool
  | setConvention .. => true
  | _ => false

/-- Whether a `set` handed out the procedure. -/
def GaveExplicit (past : List Step) (ref : ProcedureRef) : Prop :=
  ∃ s ∈ past, s.command.isSet = true ∧ s.answer = .ok (.procedure (some ref))

/-- Whether a `setConvention` handed out the procedure. -/
def GaveConvention (past : List Step) (ref : ProcedureRef) : Prop :=
  ∃ s ∈ past, s.command.isSetConvention = true ∧ s.answer = .ok (.procedure (some ref))

/-- Whether the handles that a command uses were all handed out by the steps `past`. -/
def Command.Given (past : List Step) : Command → Prop
  | addType _ _ (some base) => Gave past (.type base)
  | annotate _ t .. | unannotate _ t .. => Gave past (.type t)
  | set ref owner _ | setUsing ref owner .. | remove ref owner _ | removeConvention ref owner .. =>
      Gave past (.registry ref) ∧ Gave past (.type owner)
  | setConvention ref h owner .. =>
      Gave past (.registry ref) ∧ Gave past (.type owner) ∧ Gave past (.model h)
  | configure ref _ => GaveExplicit past ref
  | suggest ref .. | suggestSignature ref .. => GaveConvention past ref
  | _ => True

/-! Whether handles were handed out can be decided, so that sessions can be computed. -/

deriving instance DecidableEq for Outcome

instance (a : Except Error Outcome) (o : Outcome) : Decidable (a = .ok o) :=
  match a with
  | .ok o' => decidable_of_iff (o' = o) (by simp)
  | .error _ => isFalse (by simp)

instance {past : List Step} {o : Outcome} : Decidable (Gave past o) :=
  inferInstanceAs (Decidable (∃ s ∈ past, s.answer = .ok o))

instance {past : List Step} {ref : ProcedureRef} : Decidable (GaveExplicit past ref) :=
  inferInstanceAs (Decidable (∃ s ∈ past, _ ∧ _))

instance {past : List Step} {ref : ProcedureRef} : Decidable (GaveConvention past ref) :=
  inferInstanceAs (Decidable (∃ s ∈ past, _ ∧ _))

instance {past : List Step} : (c : Command) → Decidable (c.Given past)
  | .addType _ _ (some _) => inferInstanceAs (Decidable (Gave past _))
  | .annotate .. | .unannotate .. => inferInstanceAs (Decidable (Gave past _))
  | .set .. | .setUsing .. | .remove .. | .removeConvention .. =>
      inferInstanceAs (Decidable (_ ∧ _))
  | .setConvention .. => inferInstanceAs (Decidable (_ ∧ _ ∧ _))
  | .configure .. => inferInstanceAs (Decidable (GaveExplicit past _))
  | .suggest .. | .suggestSignature .. => inferInstanceAs (Decidable (GaveConvention past _))
  | .createModel _ | .addType _ _ none | .setDefaultSchema .. | .finalize _
  | .createRegistry _ | .write .. | .bindSignature .. | .restamp .. | .createProcedure ..
  | .detach _ => isTrue trivial

namespace Workspace

/-! ## Runs -/

/-- The workspace `w` carries out the steps one after another.  Each command may be given only
where `ok` allows it, after the steps before it. -/
inductive Run (ok : List Step → Command → Prop) (w : Workspace) :
    List Step → Workspace → Prop
  | nil : Run ok w [] w
  | snoc {steps : List Step} {v v' : Workspace} {c : Command} {a : Except Error Outcome}
      (before : Run ok w steps v) (single : c.isSingle = true) (allowed : ok steps c)
      (does : v.execute c = some (v', a)) : Run ok w (steps ++ [⟨c, a⟩]) v'

/-- A run of any commands whatever. -/
abbrev FreeRun (w : Workspace) : List Step → Workspace → Prop := Run (fun _ _ => True) w

/-- Whether a command is open to users and conventions after the steps `past` and `steps`. -/
def IsOpen (past steps : List Step) (c : Command) : Prop :=
  c.isPublic = true ∧ c.Given (past ++ steps)

/-- A session that has come to `w` by the steps `past` goes on. -/
abbrev Continues (past : List Step) (w : Workspace) : List Step → Workspace → Prop :=
  Run (IsOpen past) w

/-- A session, from the empty workspace. -/
abbrev Session : List Step → Workspace → Prop := Continues [] .empty

instance {past steps : List Step} {c : Command} : Decidable (IsOpen past steps c) :=
  inferInstanceAs (Decidable (_ ∧ _))

/-- Carry out commands where `ok` allows them, after the steps `steps`. -/
def carryOn (ok : List Step → Command → Prop) [∀ steps c, Decidable (ok steps c)]
    (steps : List Step) (w : Workspace) : List Command → Option (List Step × Workspace)
  | [] => some (steps, w)
  | c :: rest =>
      if c.isSingle = true ∧ ok steps c then
        match w.execute c with
        | some (w', a) => carryOn ok (steps ++ [⟨c, a⟩]) w' rest
        | none => none
      else none

section Run

variable {ok ok' : List Step → Command → Prop} {w v u : Workspace} {steps more : List Step}

theorem Run.mono (hok : ∀ steps c, ok steps c → ok' steps c) (h : Run ok w steps v) :
    Run ok' w steps v := by
  induction h with
  | nil => exact .nil
  | snoc _ single allowed does ih => exact .snoc ih single (hok _ _ allowed) does

theorem Run.append (h : Run ok w steps v)
    (k : Run (fun more c => ok (steps ++ more) c) v more u) : Run ok w (steps ++ more) u := by
  induction k with
  | nil => simpa using h
  | snoc _ single allowed does ih =>
      rw [← List.append_assoc]
      exact .snoc ih single allowed does

/-- The last step of a run, and the run before it. -/
theorem run_concat_iff {s : Step} : Run ok w (steps ++ [s]) v ↔
    ∃ u, Run ok w steps u ∧ s.command.isSingle = true ∧ ok steps s.command ∧
      u.execute s.command = some (v, s.answer) := by
  constructor
  · intro h
    generalize hall : steps ++ [s] = all at h
    cases h with
    | nil => simp at hall
    | snoc before single allowed does =>
        obtain ⟨rfl, heq⟩ := List.append_inj' hall rfl
        cases heq
        exact ⟨_, before, single, allowed, does⟩
  · rintro ⟨u, before, single, allowed, does⟩
    exact .snoc before single allowed does

/-- A run can be cut at any step. -/
theorem Run.split {past : List Step} (h : Run ok w (past ++ more) v) :
    ∃ u, Run ok w past u ∧ Run (fun later c => ok (past ++ later) c) u more v := by
  generalize hall : past ++ more = all at h
  induction h generalizing more with
  | nil =>
      obtain ⟨rfl, rfl⟩ := List.append_eq_nil_iff.1 hall
      exact ⟨w, .nil, .nil⟩
  | snoc before single allowed does ih =>
      rcases List.eq_nil_or_concat more with rfl | ⟨init, last, rfl⟩
      · rw [List.append_nil] at hall
        subst hall
        exact ⟨_, .snoc before single allowed does, .nil⟩
      · rw [List.concat_eq_append, ← List.append_assoc] at hall
        obtain ⟨rfl, heq⟩ := List.append_inj' hall rfl
        cases heq
        obtain ⟨u, hpast, hinit⟩ := ih rfl
        exact ⟨u, hpast, by simpa using hinit.snoc single allowed does⟩

/-- The steps of a run tell where it ends. -/
theorem Run.unique (h : Run ok w steps v) (k : Run ok' w steps u) : v = u := by
  induction h generalizing u with
  | nil =>
      generalize hall : ([] : List Step) = all at k
      cases k with
      | nil => rfl
      | snoc => simp at hall
  | snoc _ _ _ does ih =>
      obtain ⟨v', before, _, _, does'⟩ := run_concat_iff.1 k
      obtain rfl := ih before
      exact congrArg Prod.fst (Option.some.inj (does.symm.trans does'))

/-- Commands that can be carried out are a run. -/
theorem Run.carryOn [∀ steps c, Decidable (ok steps c)] {commands : List Command}
    {result : List Step × Workspace} (h : Run ok w steps v)
    (hdone : Workspace.carryOn ok steps v commands = some result) :
    Run ok w result.1 result.2 := by
  induction commands generalizing steps v with
  | nil =>
      have hlast : (steps, v) = result := Option.some.inj hdone
      rw [← hlast]
      exact h
  | cons c rest ih =>
      unfold Workspace.carryOn at hdone
      split at hdone
      · next hallowed =>
          split at hdone
          · next does => exact ih (.snoc h hallowed.1 hallowed.2 does) hdone
          · cases hdone
      · cases hdone

/-- Statements that are carried out up to the first that fails are a run. -/
theorem Run.configureAll (h : Run ok w steps v) (ref : ProcedureRef)
    (statements : List Procedure.Statement)
    (hok : ∀ more statement, ok (steps ++ more) (.configure ref statement)) :
    ∃ more, Run ok w (steps ++ more) (v.configureAll ref statements).1 ∧
      ∀ s ∈ more, ∃ statement, s.command = .configure ref statement := by
  induction statements generalizing v steps with
  | nil => exact ⟨[], by simpa [Workspace.configureAll] using h, by simp⟩
  | cons statement rest ih =>
      cases hdoes : v.execute (.configure ref statement) with
      | none =>
          refine ⟨[], ?_, by simp⟩
          simp only [execute] at hdoes
          simpa [Workspace.configureAll, hdoes] using h
      | some result =>
          obtain ⟨v', a⟩ := result
          have hstep : Run ok w (steps ++ [⟨.configure ref statement, a⟩]) v' :=
            .snoc h rfl (by simpa using hok [] statement) hdoes
          simp only [execute] at hdoes
          cases a with
          | error e =>
              refine ⟨[⟨.configure ref statement, .error e⟩], ?_, by simp⟩
              simpa [Workspace.configureAll, hdoes] using hstep
          | ok o =>
              obtain ⟨more, hmore, hall⟩ := ih hstep fun more statement => by
                rw [List.append_assoc]
                exact hok _ statement
              refine ⟨⟨.configure ref statement, .ok o⟩ :: more, ?_, ?_⟩
              · simpa [Workspace.configureAll, hdoes] using hmore
              · simpa using hall

/-- **A `setUsing` is a run** of its `set` and of its statements. -/
theorem Run.setUsing {ref : RegistryRef} {owner : EntityRef} {op : Operation}
    {statements : List Procedure.Statement} {a : Except Error Outcome}
    (h : Run ok w steps v) (hset : ok steps (.set ref owner op))
    (hok : ∀ p more statement,
      ok (steps ++ ⟨.set ref owner op, .ok (.procedure (some p))⟩ :: more)
        (.configure p statement))
    (hdoes : v.execute (.setUsing ref owner op statements) = some (u, a)) :
    ∃ more, Run ok w (steps ++ more) u ∧ ∀ s ∈ more,
      s.command = .set ref owner op ∨ ∃ p statement, s.command = .configure p statement := by
  simp only [execute] at hdoes
  split at hdoes
  · next v' p hv =>
      have hstep : Run ok w (steps ++ [⟨.set ref owner op, .ok (.procedure (some p))⟩]) v' :=
        .snoc h rfl hset hv
      obtain ⟨more, hmore, hall⟩ := hstep.configureAll p statements
        fun more statement => by simpa using hok p more statement
      obtain rfl : (v'.configureAll p statements).1 = u :=
        congrArg Prod.fst (Option.some.inj hdoes)
      refine ⟨_ :: more, by simpa using hmore, ?_⟩
      intro s hs
      rcases List.mem_cons.1 hs with rfl | hs
      · exact .inl rfl
      · exact .inr ⟨p, hall s hs⟩
  · refine ⟨[⟨.set ref owner op, a⟩], .snoc h rfl hset hdoes, ?_⟩
    intro s hs
    rw [List.mem_singleton] at hs
    exact .inl (hs ▸ rfl)

/-- **Facts about single models**: what holds of new models, and is kept by every change, holds of
every model through a run. -/
theorem Run.models {P : ModelId → Model → Prop} (hnew : ∀ i config, P i (.new i config))
    (happly : ∀ i m e, P i m → m.Allows e → P i (m.apply e)) (h : Run ok w steps v)
    (hw : ∀ i m, w.model? i = some m → P i m) : ∀ i m, v.model? i = some m → P i m := by
  induction h with
  | nil => exact hw
  | snoc _ single _ does ih =>
      intro i m' hm'
      rcases (execute_effect single does).model_before hm' with
        ⟨config, _, rfl⟩ | ⟨m, hm, rfl | ⟨e, _, hallowed, rfl⟩⟩
      · exact hnew i config
      · exact ih i m' hm
      · exact happly i m e (ih i m hm) hallowed

/-- There are no models at the start, so each of them is as it should be. -/
theorem empty_models {P : ModelId → Model → Prop} (i : ModelId) (m : Model)
    (hm : empty.model? i = some m) : P i m := by
  cases hm

end Run

/-! ## Sessions -/

section Session

variable {w w' : Workspace} {steps more : List Step}

theorem Session.append (h : Session steps w) (k : Continues steps w more w') :
    Session (steps ++ more) w' := by
  refine Run.append h (k.mono ?_)
  intro later c hopen
  simpa [IsOpen] using hopen

/-- A `setUsing` with handles that were handed out takes a session to a session. -/
theorem Session.setUsing {ref : RegistryRef} {owner : EntityRef} {op : Operation}
    {statements : List Procedure.Statement} {a : Except Error Outcome} (h : Session steps w)
    (hopen : IsOpen [] steps (.setUsing ref owner op statements))
    (hdoes : w.execute (.setUsing ref owner op statements) = some (w', a)) :
    ∃ more, Session (steps ++ more) w' := by
  obtain ⟨_, hgiven⟩ := hopen
  have hset : IsOpen [] steps (.set ref owner op) := ⟨rfl, hgiven⟩
  have hconfigure : ∀ p more statement,
      IsOpen [] (steps ++ ⟨.set ref owner op, .ok (.procedure (some p))⟩ :: more)
        (.configure p statement) := by
    intro p more statement
    refine ⟨rfl, ⟨.set ref owner op, .ok (.procedure (some p))⟩, ?_, rfl, rfl⟩
    simp
  obtain ⟨more, hrun, _⟩ := Run.setUsing h hset hconfigure hdoes
  exact ⟨more, hrun⟩

theorem gave_append {past : List Step} {o : Outcome} :
    Gave (past ++ more) o ↔ Gave past o ∨ Gave more o := by
  simp [Gave, or_and_right, exists_or]

theorem gave_singleton {c : Command} {a : Except Error Outcome} {o : Outcome} :
    Gave [⟨c, a⟩] o ↔ a = .ok o := by
  simp [Gave]

/-- Whether a model answers for itself under the id that the workspace knows it by. -/
def Numbered (w : Workspace) : Prop := ∀ i m, w.model? i = some m → m.id = i

/-- Whether a reference is one that its model hands out. -/
def Holds (w : Workspace) (t : EntityRef) : Prop :=
  ∃ m, w.model? t.model = some m ∧ m.ref? t.id = some t

/-- Whether a registry is there. -/
def HasRegistry (w : Workspace) (ref : RegistryRef) : Prop :=
  ∃ m, w.model? ref.model = some m ∧ ref.id < m.registries.length

theorem Run.numbered {ok : List Step → Command → Prop} (h : Run ok w steps w')
    (hw : w.Numbered) : w'.Numbered := by
  refine h.models (fun _ _ => rfl) ?_ hw
  intro i m e hm _
  rw [Model.id_apply, hm]

theorem Effect.holds {c : Command} {t : EntityRef} (h : w.Effect c w') (ht : w.Holds t) :
    w'.Holds t := by
  obtain ⟨m, hm, href⟩ := ht
  rcases h.model_after hm with hsame | ⟨e, _, hallowed, hm'⟩
  · exact ⟨m, hsame, href⟩
  · exact ⟨_, hm', Model.ref?_apply hallowed href⟩

theorem Effect.hasRegistry {c : Command} {ref : RegistryRef} (h : w.Effect c w')
    (href : w.HasRegistry ref) : w'.HasRegistry ref := by
  obtain ⟨m, hm, hlt⟩ := href
  rcases h.model_after hm with hsame | ⟨e, _, _, hm'⟩
  · exact ⟨m, hsame, hlt⟩
  · exact ⟨_, hm', Nat.lt_of_lt_of_le hlt (m.registries_length_apply e)⟩

theorem Effect.hasModel {c : Command} {i : ModelId} (h : w.Effect c w')
    (hi : (w.model? i).isSome = true) : (w'.model? i).isSome = true := by
  obtain ⟨m, hm⟩ := Option.isSome_iff_exists.1 hi
  rcases h.model_after hm with hsame | ⟨e, _, _, hm'⟩
  · simp [hsame]
  · simp [hm']

/-! ### What an answer hands out -/

theorem changeModel_ok {i : ModelId} {change : Model → Except Error (Outcome × Model)}
    {o : Outcome} (h : w.changeModel i change = some (w', .ok o)) :
    ∃ m m', w.model? i = some m ∧ change m = .ok (o, m') ∧ w' = w.setModel i m' := by
  obtain ⟨m, hm, ⟨_, m', hchange, hr⟩ | ⟨_, _, hr⟩⟩ := changeModel_eq_some h
  · cases hr
    exact ⟨m, m', hm, hchange, rfl⟩
  · cases hr

theorem changeRegistry_ok {ref : RegistryRef}
    {change : Model → Except Error (Option ProcedureId × Model)} {o : Outcome}
    (h : w.changeRegistry ref change = some (w', .ok o)) :
    ∃ m found m', w.model? ref.model = some m ∧ change m = .ok (found, m') ∧
      w' = w.setModel ref.model m' ∧ o = .procedure (found.map fun i => ⟨ref.model, i⟩) := by
  obtain ⟨m, hm, ⟨found, m', hchange, hr⟩ | ⟨_, _, hr⟩⟩ := changeRegistry_eq_some h
  · cases hr
    exact ⟨m, found, m', hm, hchange, rfl, rfl⟩
  · cases hr

theorem changeProcedure_ok {ref : ProcedureRef}
    {change : ModelSettings → Procedure → Except Error (Outcome × Procedure)} {o : Outcome}
    (h : w.changeProcedure ref change = some (w', .ok o)) :
    ∃ m p q, w.procedure? ref = some (m, p) ∧ change m.settings p = .ok (o, q) ∧
      w' = w.setModel ref.model (m.setProcedure ref.id q) := by
  obtain ⟨m, p, hp, ⟨_, q, hchange, hr⟩ | ⟨_, _, hr⟩⟩ := changeProcedure_eq_some h
  · cases hr
    exact ⟨m, p, q, hp, hchange, rfl⟩
  · cases hr

/-- A call that its record answers is carried out. -/
theorem changeProcedure_of_ok {α : Type} {ref : ProcedureRef} {m : Model} {p : Procedure} {x : α}
    {call : ModelSettings → Procedure → Except Error α}
    {result : Procedure → α → Outcome × Procedure} (hp : w.procedure? ref = some (m, p))
    (h : call m.settings p = .ok x) :
    (w.changeProcedure ref fun settings p => (call settings p).map (result p)) =
      some (w.setModel ref.model (m.setProcedure ref.id (result p x).2), .ok (result p x).1) := by
  simp only [changeProcedure, hp, h, Except.map]

/-- A failing command leaves everything as it was. -/
theorem execute_error {c : Command} {x : Error} (hsingle : c.isSingle = true)
    (h : w.execute c = some (w', .error x)) : w' = w := by
  have hmodel : ∀ {i change}, w.changeModel i change = some (w', .error x) → w' = w := by
    intro i change hdone
    obtain ⟨m, _, ⟨_, _, _, heq⟩ | ⟨_, _, heq⟩⟩ := changeModel_eq_some hdone
    · cases heq
    · exact congrArg Prod.fst heq
  have hprocedure : ∀ {p change}, w.changeProcedure p change = some (w', .error x) → w' = w := by
    intro p change hdone
    obtain ⟨_, _, _, ⟨_, _, _, heq⟩ | ⟨_, _, heq⟩⟩ := changeProcedure_eq_some hdone
    · cases heq
    · exact congrArg Prod.fst heq
  cases c with simp only [execute] at h
  | createModel => cases h
  | setUsing => cases hsingle
  | setConvention =>
      split at h
      · cases h
      · exact hmodel h
  | configure | suggest | suggestSignature | write | bindSignature | restamp | detach =>
      exact hprocedure h
  | _ => exact hmodel h

/-- What a change of a default schema does that is not refused: it is recorded, or it backs off. -/
theorem execute_setDefaultSchema {i : ModelId} {schema : Option String} {s : Source}
    {o : Outcome} (h : w.execute (.setDefaultSchema i schema s) = some (w', .ok o)) :
    ∃ m, w.model? i = some m ∧
      (o = .applied true ∧ m.settings.defaultSchema.accepts schema s = true ∧
          w' = w.setModel i (m.apply (.defaultSchema schema s)) ∨
        o = .applied false ∧ m.settings.defaultSchema.accepts schema s = false ∧ w' = w) := by
  obtain ⟨m, m', hm, hchange, rfl⟩ := changeModel_ok h
  obtain ⟨⟨b, n⟩, hset, heq⟩ := map_eq_ok_iff.1 hchange
  cases heq
  refine ⟨m, hm, ?_⟩
  rcases Model.setDefaultSchema_eq_ok hset with ⟨rfl, ⟨_, haccepts⟩, rfl⟩ | ⟨rfl, hrejects, rfl⟩
  · exact .inl ⟨rfl, haccepts, rfl⟩
  · exact .inr ⟨rfl, hrejects, setModel_self hm⟩

/-- What a `set` does that is not refused. -/
theorem execute_set {reg : RegistryRef} {owner : EntityRef} {op : Operation} {o : Outcome}
    (h : w.execute (.set reg owner op) = some (w', .ok o)) :
    ∃ m i m', w.model? reg.model = some m ∧
      m.reuseOrCreate reg.id (m.declared? reg.id owner op) owner op .explicit = .ok (i, m') ∧
      w' = w.setModel reg.model m' ∧ o = .procedure (some ⟨reg.model, i⟩) := by
  obtain ⟨m, found, m', hm, hchange, rfl, rfl⟩ := changeRegistry_ok h
  obtain ⟨⟨i, n⟩, hset, heq⟩ := map_eq_ok_iff.1 hchange
  cases heq
  obtain ⟨_, _, hreuse⟩ := bind_eq_ok_iff.1 hset
  exact ⟨m, i, m', hm, hreuse, rfl, rfl⟩

/-- What a `setConvention` does that is not refused. -/
theorem execute_setConvention {reg : RegistryRef} {k : ModelId} {owner : EntityRef}
    {op : Operation} {da : Bool} {o : Outcome}
    (h : w.execute (.setConvention reg k owner op da) = some (w', .ok o)) :
    ∃ m n i m', w.model? reg.model = some m ∧ w.model? k = some n ∧
      m.reuseOrCreate reg.id (m.lookup? reg.id n owner op) owner op (.ofConvention da) =
        .ok (i, m') ∧
      w' = w.setModel reg.model m' ∧ o = .procedure (some ⟨reg.model, i⟩) := by
  simp only [execute] at h
  split at h
  · cases h
  · next n hn =>
      obtain ⟨m, found, m', hm, hchange, rfl, rfl⟩ := changeRegistry_ok h
      obtain ⟨⟨i, n'⟩, hset, heq⟩ := map_eq_ok_iff.1 hchange
      cases heq
      obtain ⟨_, _, hreuse⟩ := bind_eq_ok_iff.1 hset
      exact ⟨m, n, i, n', hm, hn, hreuse, rfl, rfl⟩

theorem configureAll_kind {ref : ProcedureRef} {statements : List Procedure.Statement}
    {o : Outcome} (h : w.configureAll ref statements = (w', .ok o)) : o.kind = .procedure := by
  induction statements generalizing w with
  | nil =>
      cases h
      rfl
  | cons statement rest ih =>
      unfold configureAll at h
      split at h
      · exact ih h
      · cases h
      · cases h
        rfl

/-- A command that did not fail has an outcome of its kind. -/
theorem execute_kind {c : Command} {o : Outcome} (h : w.execute c = some (w', .ok o)) :
    o.kind = c.kind := by
  cases c with simp only [execute] at h
  | createModel config =>
      cases h
      rfl
  | addType | annotate | unannotate | setDefaultSchema =>
      obtain ⟨m, m', _, hchange, _⟩ := changeModel_ok h
      obtain ⟨_, _, heq⟩ := map_eq_ok_iff.1 hchange
      cases heq
      rfl
  | finalize | createRegistry | createProcedure =>
      obtain ⟨m, m', _, hchange, _⟩ := changeModel_ok h
      cases hchange
      rfl
  | set | remove | removeConvention =>
      obtain ⟨_, _, _, _, _, _, rfl⟩ := changeRegistry_ok h
      rfl
  | setUsing ref owner op statements =>
      split at h
      · next v p hset =>
          exact configureAll_kind (Option.some.inj h)
      · obtain ⟨_, _, _, _, _, _, rfl⟩ := changeRegistry_ok h
        rfl
  | setConvention =>
      split at h
      · cases h
      · obtain ⟨_, _, _, _, _, _, rfl⟩ := changeRegistry_ok h
        rfl
  | suggest | write =>
      obtain ⟨_, _, _, _, hchange, _⟩ := changeProcedure_ok h
      obtain ⟨written, _, heq⟩ := map_eq_ok_iff.1 hchange
      cases written <;> cases heq <;> rfl
  | configure | suggestSignature | bindSignature | restamp =>
      obtain ⟨_, _, _, _, hchange, _⟩ := changeProcedure_ok h
      obtain ⟨_, _, heq⟩ := map_eq_ok_iff.1 hchange
      cases heq
      rfl
  | detach =>
      obtain ⟨_, _, _, _, hchange, _⟩ := changeProcedure_ok h
      cases hchange
      rfl

theorem execute_type {c : Command} {t : EntityRef} (hw : w.Numbered)
    (h : w.execute c = some (w', .ok (.type t))) : w'.Holds t := by
  have hkind := execute_kind h
  cases c <;> cases hkind
  next i name base =>
  obtain ⟨m, m', hm, hchange, rfl⟩ := changeModel_ok h
  obtain ⟨⟨u, n⟩, hadd, heq⟩ := map_eq_ok_iff.1 hchange
  cases heq
  obtain ⟨rfl, b, _, rfl⟩ := Model.addType_eq_ok hadd
  obtain rfl : m.id = i := hw i m hm
  exact ⟨_, by rw [model?_setModel hm, if_pos rfl], by simp [Model.ref?]⟩

theorem execute_registry {c : Command} {ref : RegistryRef}
    (h : w.execute c = some (w', .ok (.registry ref))) : w'.HasRegistry ref := by
  have hkind := execute_kind h
  cases c <;> cases hkind
  next i =>
  simp only [execute] at h
  obtain ⟨m, m', hm, hchange, rfl⟩ := changeModel_ok h
  cases hchange
  exact ⟨_, by rw [model?_setModel hm, if_pos rfl], by simp [Model.addRegistry]⟩

theorem execute_model {c : Command} {i : ModelId}
    (h : w.execute c = some (w', .ok (.model i))) : (w'.model? i).isSome = true := by
  have hkind := execute_kind h
  cases c <;> cases hkind
  next config =>
  cases h
  simp [model?]

/-! ### Handles stay good -/

theorem Session.numbered (h : Session steps w) : w.Numbered := Run.numbered h empty_models

/-- A type that was handed out belongs to its model under its id. -/
theorem Session.holds {t : EntityRef} (h : Session steps w) (ht : Gave steps (.type t)) :
    w.Holds t := by
  induction h with
  | nil => simp [Gave] at ht
  | snoc before single _ does ih =>
      rcases gave_append.1 ht with hbefore | hlast
      · exact (execute_effect single does).holds (ih hbefore)
      · rw [gave_singleton] at hlast
        subst hlast
        exact execute_type (Session.numbered before) does

/-- A registry that was handed out is there. -/
theorem Session.hasRegistry {ref : RegistryRef} (h : Session steps w)
    (href : Gave steps (.registry ref)) : w.HasRegistry ref := by
  induction h with
  | nil => simp [Gave] at href
  | snoc before single _ does ih =>
      rcases gave_append.1 href with hbefore | hlast
      · exact (execute_effect single does).hasRegistry (ih hbefore)
      · rw [gave_singleton] at hlast
        subst hlast
        exact execute_registry does

theorem Session.hasModel {i : ModelId} (h : Session steps w) (hi : Gave steps (.model i)) :
    (w.model? i).isSome = true := by
  induction h with
  | nil => simp [Gave] at hi
  | snoc before single _ does ih =>
      rcases gave_append.1 hi with hbefore | hlast
      · exact (execute_effect single does).hasModel (ih hbefore)
      · rw [gave_singleton] at hlast
        subst hlast
        exact execute_model does

end Session

end Workspace

end ProcedureMapping
