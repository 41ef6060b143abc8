import ProcedureMapping.Proofs.Session
import ProcedureMapping.Proofs.Slots

/-!
# The ledger of a session

The answers of a session are a ledger of its records.  Every record was handed out by one registry
and by no other, and it either sits in the slot of its owner and operation there or is removed and
in no slot.  As the models of a session are sound, no call on a registry ever fails because of a
removed record.

Main statements:

* `Session.sound` — the models of a session are sound;
* `Session.ledger` — every record has one home;
* `Session.refusals` — why a call on a registry fails;
* `session_inStep` — slots and records stay in step.
-/

namespace ProcedureMapping

/-! ## Slots of a workspace -/

/-- The registry, the type and the operation that a call on a registry is about. -/
def Command.target? : Command → Option (RegistryRef × EntityRef × Operation)
  | set reg owner op | setConvention reg _ owner op _ | remove reg owner op
  | removeConvention reg owner op _ => some (reg, owner, op)
  | _ => none

theorem Command.target?_eq_some {c : Command} {reg : RegistryRef} {owner : EntityRef}
    {op : Operation} (h : c.target? = some (reg, owner, op)) :
    c = .set reg owner op ∨ (∃ k da, c = .setConvention reg k owner op da) ∨
      c = .remove reg owner op ∨ ∃ da, c = .removeConvention reg owner op da := by
  cases c with simp only [target?, Option.some.injEq, Prod.mk.injEq, reduceCtorEq] at h
  | set reg' owner' op' =>
      obtain ⟨rfl, rfl, rfl⟩ := h
      exact .inl rfl
  | setConvention reg' k owner' op' da =>
      obtain ⟨rfl, rfl, rfl⟩ := h
      exact .inr (.inl ⟨k, da, rfl⟩)
  | remove reg' owner' op' =>
      obtain ⟨rfl, rfl, rfl⟩ := h
      exact .inr (.inr (.inl rfl))
  | removeConvention reg' owner' op' da =>
      obtain ⟨rfl, rfl, rfl⟩ := h
      exact .inr (.inr (.inr ⟨da, rfl⟩))

/-- Whether a call on the registry was answered with the record. -/
def Answered (steps : List Step) (reg : RegistryRef) (p : ProcedureRef) : Prop :=
  ∃ s ∈ steps, (∃ owner op, s.command.target? = some (reg, owner, op)) ∧
    s.answer = .ok (.procedure (some p))

namespace Workspace

/-- The record in a slot of a registry. -/
def slot? (w : Workspace) (reg : RegistryRef) (slot : Slot) : Option ProcedureRef :=
  (w.model? reg.model).bind fun m =>
    ((m.registry reg.id).get? slot).map fun i => ⟨reg.model, i⟩

variable {w w' : Workspace} {c : Command} {steps more : List Step}

theorem slot?_eq_some_iff {reg : RegistryRef} {slot : Slot} {p : ProcedureRef} :
    w.slot? reg slot = some p ↔ ∃ m, w.model? reg.model = some m ∧ p.model = reg.model ∧
      (m.registry reg.id).get? slot = some p.id := by
  obtain ⟨i, j⟩ := p
  constructor
  · intro h
    obtain ⟨m, hm, hslot⟩ := Option.bind_eq_some_iff.1 h
    obtain ⟨k, hk, heq⟩ := Option.map_eq_some_iff.1 hslot
    cases heq
    exact ⟨m, hm, rfl, hk⟩
  · rintro ⟨m, hm, rfl, hslot⟩
    simp [slot?, hm, hslot]

theorem declared?_slot {m : Model} {r : RegistryId} {owner : EntityRef} {op : Operation}
    {i : ProcedureId} (h : m.declared? r owner op = some i) :
    ∃ slot, (m.registry r).get? slot = some i :=
  ⟨_, (Model.declared?_eq_some h).2⟩

/-- What a registry hands out was in one of its slots, or is made for one. -/
theorem execute_target {reg : RegistryRef} {owner : EntityRef} {op : Operation}
    {p : ProcedureRef} (htarget : c.target? = some (reg, owner, op))
    (h : w.execute c = some (w', .ok (.procedure (some p)))) :
    ∃ m, w.model? reg.model = some m ∧ p.model = reg.model ∧
      ((∃ slot, (m.registry reg.id).get? slot = some p.id) ∨
        p.id = m.procedures.length ∧
          ∃ s, w' = w.setModel reg.model (m.apply (.create reg.id owner op s))) := by
  have hreuse : ∀ {m m' : Model} {found : Option ProcedureId} {i : ProcedureId} {s : Source},
      m.reuseOrCreate reg.id found owner op s = .ok (i, m') →
      (∀ j, found = some j → ∃ slot, (m.registry reg.id).get? slot = some j) →
      (∃ slot, (m.registry reg.id).get? slot = some i) ∨
        i = m.procedures.length ∧ ∃ s, w.setModel reg.model m' =
          w.setModel reg.model (m.apply (.create reg.id owner op s)) := by
    intro m m' found i s hok hfound
    rcases Model.reuseOrCreate_eq_ok hok with hi | ⟨hi, rfl⟩
    · exact .inl (hfound i hi)
    · exact .inr ⟨hi, s, rfl⟩
  rcases Command.target?_eq_some htarget with rfl | ⟨k, da, rfl⟩ | rfl | ⟨da, rfl⟩
  · obtain ⟨m, i, m', hm, hok, rfl, hp⟩ := execute_set h
    cases hp
    exact ⟨m, hm, rfl, hreuse hok fun j hj => declared?_slot hj⟩
  · obtain ⟨m, n, i, m', hm, _, hok, rfl, hp⟩ := execute_setConvention h
    cases hp
    exact ⟨m, hm, rfl, hreuse hok fun j hj => Model.lookup?_eq_some hj⟩
  · obtain ⟨m, found, m', hm, hchange, rfl, hp⟩ := changeRegistry_ok h
    obtain ⟨i, rfl, rfl⟩ := Option.map_eq_some_iff.1 (Outcome.procedure.inj hp).symm
    obtain ⟨_, _, hok⟩ := bind_eq_ok_iff.1 hchange
    have hheld : m.declared? reg.id owner op = some i := by
      rw [← m.vacate_fst, Except.ok.inj hok]
    exact ⟨m, hm, rfl, .inl (declared?_slot hheld)⟩
  · obtain ⟨m, found, m', hm, hchange, rfl, hp⟩ := changeRegistry_ok h
    obtain ⟨i, rfl, rfl⟩ := Option.map_eq_some_iff.1 (Outcome.procedure.inj hp).symm
    obtain ⟨_, _, hok⟩ := bind_eq_ok_iff.1 hchange
    have hheld : m.declared? reg.id owner op = some i := by
      rw [← m.vacate_fst]
      split at hok
      · cases hok
      · split at hok
        · rw [Except.ok.inj hok]
        · cases hok
    exact ⟨m, hm, rfl, .inl (declared?_slot hheld)⟩

/-! ## Sessions -/

/-- The owner that a call on a registry names is a type of the registry's model, and the registry is
there. -/
theorem Session.target_good (h : Session steps w) {reg : RegistryRef} {owner : EntityRef}
    {m : Model} (hreg : Gave steps (.registry reg)) (howner : Gave steps (.type owner))
    (hm : w.model? reg.model = some m) (hsame : owner.model = m.id) :
    m.ref? owner.id = some owner ∧ reg.id < m.registries.length := by
  have hid : m.id = reg.model := Session.numbered h _ _ hm
  obtain ⟨n, hn, href⟩ := Session.holds h howner
  obtain ⟨n', hn', hlt⟩ := Session.hasRegistry h hreg
  rw [hsame, hid, hm] at hn
  rw [hm] at hn'
  cases hn
  cases hn'
  exact ⟨href, hlt⟩

/-- What a session does to its models is orderly. -/
theorem Session.orderly (h : Session steps w) (hopen : IsOpen [] steps c) {i : ModelId} {m : Model}
    {e : Model.Change} (hm : w.model? i = some m) (hmakes : c.Makes i e)
    (hallowed : m.Allows e) : m.Orderly e := by
  obtain ⟨hpublic, hgiven⟩ := hopen
  cases hmakes with
  | setNew => exact Session.target_good h hgiven.1 hgiven.2 hm hallowed.1
  | setConventionNew => exact Session.target_good h hgiven.1 hgiven.2.1 hm hallowed.1
  | detach | createProcedure => cases hpublic
  | _ => trivial

/-- **The models of a session are sound.** -/
theorem Session.sound (h : Session steps w) :
    ∀ i m, w.model? i = some m → m.Sound := by
  induction h with
  | nil => intro i m hm; cases hm
  | snoc before single allowed does ih =>
      intro i m' hm'
      rcases (execute_effect single does).model_before hm' with
        ⟨config, rfl, rfl⟩ | ⟨m, hm, rfl | ⟨e, hmakes, hallowed, rfl⟩⟩
      · exact Model.sound_new _ config
      · exact ih i m' hm
      · exact Model.sound_apply (ih i m hm) hallowed
          (Session.orderly before allowed hm hmakes hallowed)

/-- The answers of a session as a ledger of its records. -/
structure Ledger (steps : List Step) (w : Workspace) : Prop where
  kept : ∀ reg p, Answered steps reg p → p.model = reg.model ∧
    ∃ m, w.model? reg.model = some m ∧ m.Stays reg.id p.id
  known : ∀ p m q, w.procedure? p = some (m, q) → ∃ reg, Answered steps reg p
  single : ∀ reg reg' p, Answered steps reg p → Answered steps reg' p → reg = reg'

theorem answered_append {a : Except Error Outcome} {reg : RegistryRef} {p : ProcedureRef} :
    Answered (steps ++ [⟨c, a⟩]) reg p ↔ Answered steps reg p ∨
      (∃ owner op, c.target? = some (reg, owner, op)) ∧ a = .ok (.procedure (some p)) := by
  simp [Answered, or_and_right, exists_or]

theorem Effect.stays {reg : RegistryRef} {i : ProcedureId} (h : w.Effect c w')
    (hstays : ∃ m, w.model? reg.model = some m ∧ m.Stays reg.id i) :
    ∃ m, w'.model? reg.model = some m ∧ m.Stays reg.id i := by
  obtain ⟨m, hm, hkept⟩ := hstays
  rcases h.model_after hm with hsame | ⟨e, _, hallowed, hm'⟩
  · exact ⟨m, hsame, hkept⟩
  · exact ⟨_, hm', Model.stays_apply hkept hallowed⟩

theorem eq_of_made {reg : RegistryRef} {m n m' : Model} {found : Option ProcedureId}
    {owner : EntityRef} {op : Operation} {s : Source} {k : ProcedureId} {p : ProcedureRef}
    {q : Procedure} (hm : w.model? reg.model = some m)
    (hok : m.reuseOrCreate reg.id found owner op s = .ok (k, n)) (hp : p.model = reg.model)
    (hbefore : w.procedure? p = none)
    (hafter : (w.setModel reg.model n).procedure? p = some (m', q)) : p = ⟨reg.model, k⟩ := by
  obtain ⟨hm', hq⟩ := procedure?_eq_some_iff.1 hafter
  rw [← hp] at hm
  rw [← hp, model?_setModel hm, if_pos rfl] at hm'
  cases hm'
  have hid : p.id = k := Model.reuseOrCreate_made hok (procedure_eq_none hbefore hm) hq
  rw [← hp, ← hid]

/-- A record that is new after a step is the one that the step handed out. -/
theorem execute_made {a : Except Error Outcome} {p : ProcedureRef} {m' : Model} {q : Procedure}
    (hsingle : c.isSingle = true) (hpublic : c.isPublic = true)
    (h : w.execute c = some (w', a)) (hbefore : w.procedure? p = none)
    (hafter : w'.procedure? p = some (m', q)) :
    (∃ reg owner op, c.target? = some (reg, owner, op)) ∧ a = .ok (.procedure (some p)) := by
  have hchanged : w' ≠ w := by
    rintro rfl
    rw [hbefore] at hafter
    cases hafter
  obtain ⟨o, rfl⟩ : ∃ o, a = .ok o := by
    cases a with
    | ok o => exact ⟨o, rfl⟩
    | error x => exact absurd (execute_error hsingle h) hchanged
  rcases (execute_effect hsingle h).procedure_before hafter with
    ⟨m, p', hp', _⟩ | ⟨_, m, owner, op, s, _, _, _, ⟨r, hmakes⟩ | hmakes⟩
  · rw [hbefore] at hp'
    cases hp'
  · generalize hi : p.model = i at hmakes
    cases hmakes with
    | @setNew ref =>
        obtain ⟨n, k, n', hn, hok, rfl, rfl⟩ := execute_set h
        rw [eq_of_made hn hok hi hbefore hafter]
        exact ⟨⟨ref, owner, op, rfl⟩, rfl⟩
    | @setConventionNew ref h' _ _ da =>
        obtain ⟨n, _, k, n', hn, _, hok, rfl, rfl⟩ := execute_setConvention h
        rw [eq_of_made hn hok hi hbefore hafter]
        exact ⟨⟨ref, owner, op, rfl⟩, rfl⟩
  · generalize p.model = i at hmakes
    cases hmakes
    cases hpublic

/-- A record that a registry hands out is in a slot, or was just removed from one. -/
theorem answered_stays {reg : RegistryRef} {owner : EntityRef} {op : Operation}
    {p : ProcedureRef} (hw : ∀ i m, w.model? i = some m → m.Sound) (href : w.HasRegistry reg)
    (hsingle : c.isSingle = true) (htarget : c.target? = some (reg, owner, op))
    (h : w.execute c = some (w', .ok (.procedure (some p)))) :
    p.model = reg.model ∧ ∃ m, w'.model? reg.model = some m ∧ m.Stays reg.id p.id := by
  obtain ⟨m, hm, hmodel, hfound⟩ := execute_target htarget h
  refine ⟨hmodel, ?_⟩
  rcases hfound with ⟨slot, hslot⟩ | ⟨hlast, s, rfl⟩
  · exact (execute_effect hsingle h).stays ⟨m, hm, Model.stays_of_slot (hw _ m hm) hslot⟩
  · obtain ⟨n, hn, hlt⟩ := href
    rw [hm] at hn
    cases hn
    refine ⟨_, by rw [model?_setModel hm, if_pos rfl], ?_⟩
    rw [hlast]
    exact Model.stays_create hlt owner op s

/-- A record that a registry hands out was handed out by no other registry. -/
theorem answered_single {reg reg' : RegistryRef} {owner : EntityRef} {op : Operation}
    {p : ProcedureRef} (hw : ∀ i m, w.model? i = some m → m.Sound) (hledger : Ledger steps w)
    (htarget : c.target? = some (reg, owner, op))
    (h : w.execute c = some (w', .ok (.procedure (some p)))) (hbefore : Answered steps reg' p) :
    reg' = reg := by
  obtain ⟨m, hm, hmodel, hfound⟩ := execute_target htarget h
  obtain ⟨hmodel', n, hn, q, hq, hstays⟩ := hledger.kept reg' p hbefore
  have hsame : reg'.model = reg.model := hmodel'.symm.trans hmodel
  rw [hsame, hm] at hn
  cases hn
  rcases hfound with ⟨slot, hslot⟩ | ⟨hlast, _⟩
  · obtain ⟨q', hq', hlive, _⟩ := (hw _ m hm).served _ slot _ hslot
    obtain rfl : q = q' := Option.some.inj (hq.symm.trans hq')
    rcases hstays with hremoved | hslot'
    · rw [hlive] at hremoved
      cases hremoved
    · have hid : reg'.id = reg.id := (hw _ m hm).apart _ _ _ slot _ hslot' hslot
      cases reg
      cases reg'
      simp_all
  · rw [hlast] at hq
    simp at hq

theorem target_given {past : List Step} {reg : RegistryRef} {owner : EntityRef} {op : Operation}
    (htarget : c.target? = some (reg, owner, op)) (hgiven : c.Given past) :
    Gave past (.registry reg) ∧ Gave past (.type owner) := by
  rcases Command.target?_eq_some htarget with rfl | ⟨k, da, rfl⟩ | rfl | ⟨da, rfl⟩
  · exact hgiven
  · exact ⟨hgiven.1, hgiven.2.1⟩
  · exact hgiven
  · exact hgiven

/-- **Every record has one home**: the registry that handed it out. -/
theorem Session.ledger (h : Session steps w) : Ledger steps w := by
  induction h with
  | nil =>
      refine ⟨?_, ?_, ?_⟩
      · intro reg p hanswered
        simp [Answered] at hanswered
      · intro p m q hp
        cases hp
      · intro reg reg' p hanswered
        simp [Answered] at hanswered
  | @snoc steps v v' c a before single allowed does ih =>
      have hsound := Session.sound before
      have heffect := execute_effect single does
      refine ⟨?_, ?_, ?_⟩
      · intro reg p hanswered
        rcases answered_append.1 hanswered with hold | ⟨⟨owner, op, htarget⟩, rfl⟩
        · obtain ⟨hmodel, hstays⟩ := ih.kept reg p hold
          exact ⟨hmodel, heffect.stays hstays⟩
        · have href := Session.hasRegistry before (target_given htarget allowed.2).1
          exact answered_stays hsound href single htarget does
      · intro p m q hp
        cases hbefore : v.procedure? p with
        | some found =>
            obtain ⟨reg, hanswered⟩ := ih.known p found.1 found.2 hbefore
            exact ⟨reg, answered_append.2 (.inl hanswered)⟩
        | none =>
            obtain ⟨⟨reg, owner, op, htarget⟩, rfl⟩ :=
              execute_made single allowed.1 does hbefore hp
            exact ⟨reg, answered_append.2 (.inr ⟨⟨owner, op, htarget⟩, rfl⟩)⟩
      · intro reg reg' p hanswered hanswered'
        rcases answered_append.1 hanswered with hold | ⟨⟨owner, op, htarget⟩, rfl⟩
        · rcases answered_append.1 hanswered' with hold' | ⟨⟨owner, op, htarget⟩, rfl⟩
          · exact ih.single reg reg' p hold hold'
          · exact answered_single hsound ih htarget does hold
        · rcases answered_append.1 hanswered' with hold' | ⟨⟨owner', op', htarget'⟩, _⟩
          · exact (answered_single hsound ih htarget does hold').symm
          · rw [htarget] at htarget'
            exact congrArg Prod.fst (Option.some.inj htarget')

/-- A removed record stays removed. -/
theorem Run.removed {ok : List Step → Command → Prop} {p : ProcedureRef} {m : Model}
    {q : Procedure} (h : Run ok w steps w') (hp : w.procedure? p = some (m, q))
    (hremoved : q.removed = true) :
    ∃ m' q', w'.procedure? p = some (m', q') ∧ q'.removed = true := by
  induction h with
  | nil => exact ⟨m, q, hp, hremoved⟩
  | snoc _ single _ does ih =>
      obtain ⟨m₁, q₁, hp₁, hremoved₁⟩ := ih
      obtain ⟨m₂, q₂, hp₂, ⟨_, rfl⟩ | ⟨_, _, _, _, hafter⟩⟩ :=
        (execute_effect single does).procedure_after hp₁
      · exact ⟨m₂, q₂, hp₂, hremoved₁⟩
      · refine ⟨m₂, q₂, hp₂, ?_⟩
        rcases hafter with rfl | ⟨change, _, rfl⟩
        · exact hremoved₁
        · exact (q₁.removed_apply change).2 (.inl hremoved₁)

/-- What a slot of a session holds. -/
theorem Session.slot (h : Session steps w) {reg : RegistryRef} {slot : Slot} {p : ProcedureRef}
    (hslot : w.slot? reg slot = some p) :
    ∃ m q, w.procedure? p = some (m, q) ∧ q.removed = false ∧ p.model = reg.model ∧
      q.owner.model = reg.model ∧ q.owner.id = slot.owner ∧ m.ref? slot.owner = some q.owner ∧
      q.operation = slot.operation := by
  obtain ⟨m, hm, hmodel, hget⟩ := slot?_eq_some_iff.1 hslot
  have hsound := Session.sound h _ m hm
  obtain ⟨q, hq, hlive, howner, hop⟩ := hsound.served _ _ _ hget
  have href : m.ref? slot.owner = some q.owner := howner ▸ hsound.owned _ q hq
  have hid : m.id = reg.model := Session.numbered h _ m hm
  refine ⟨m, q, ?_, hlive, hmodel, ?_, howner, href, hop⟩
  · rw [procedure?_eq_some_iff, hmodel]
    exact ⟨hm, hq⟩
  · obtain ⟨_, _, heq⟩ := Model.ref?_eq_some_iff.1 href
    rw [← heq]
    exact hid

/-- A removed record is in no slot. -/
theorem Session.removed_slot (h : Session steps w) {p : ProcedureRef} {m : Model} {q : Procedure}
    (hp : w.procedure? p = some (m, q)) (hremoved : q.removed = true) (reg : RegistryRef)
    (slot : Slot) : w.slot? reg slot ≠ some p := by
  intro hslot
  obtain ⟨_, _, hp', hlive, _⟩ := Session.slot h hslot
  rw [hp] at hp'
  cases hp'
  rw [hremoved] at hlive
  cases hlive

theorem Session.slot_once (h : Session steps w) {reg reg' : RegistryRef} {slot slot' : Slot}
    {p : ProcedureRef} (hslot : w.slot? reg slot = some p) (hslot' : w.slot? reg' slot' = some p) :
    reg = reg' ∧ slot = slot' := by
  obtain ⟨m, hm, hmodel, hget⟩ := slot?_eq_some_iff.1 hslot
  obtain ⟨n, hn, hmodel', hget'⟩ := slot?_eq_some_iff.1 hslot'
  have hsame : reg'.model = reg.model := hmodel'.symm.trans hmodel
  rw [hsame, hm] at hn
  cases hn
  obtain ⟨hid, rfl⟩ := (Session.sound h _ m hm).slot_unique hget hget'
  cases reg
  cases reg'
  simp_all

/-- The home of a record, and where it stands. -/
theorem Session.home (h : Session steps w) {p : ProcedureRef} {m : Model} {q : Procedure}
    (hp : w.procedure? p = some (m, q)) :
    ∃ reg, Answered steps reg p ∧ (∀ reg', Answered steps reg' p → reg' = reg) ∧
      (q.removed = false ∧ w.slot? reg ⟨q.owner.id, q.operation⟩ = some p ∨
        q.removed = true ∧ ∀ reg' slot, w.slot? reg' slot ≠ some p) := by
  have hledger := Session.ledger h
  obtain ⟨reg, hanswered⟩ := hledger.known p m q hp
  refine ⟨reg, hanswered, fun reg' h' => hledger.single reg' reg p h' hanswered, ?_⟩
  cases hremoved : q.removed with
  | true => exact .inr ⟨rfl, Session.removed_slot h hp hremoved⟩
  | false =>
      obtain ⟨hmodel, n, hn, q', hq', hstays⟩ := hledger.kept reg p hanswered
      obtain ⟨hm, hq⟩ := procedure?_eq_some_iff.1 hp
      rw [← hmodel, hm] at hn
      cases hn
      rw [hq] at hq'
      cases hq'
      refine .inl ⟨rfl, slot?_eq_some_iff.2 ⟨m, hmodel ▸ hm, hmodel, ?_⟩⟩
      rcases hstays with hgone | hslot
      · rw [hremoved] at hgone
        cases hgone
      · exact hslot

theorem changeRegistry_result {reg : RegistryRef} {m : Model} (hm : w.model? reg.model = some m)
    (change : Model → Except Error (Option ProcedureId × Model)) :
    ∃ w' a, w.changeRegistry reg change = some (w', a) ∧
      ∀ x, a = .error x → w' = w ∧ change m = .error x := by
  cases hchange : change m with
  | ok result =>
      obtain ⟨found, n⟩ := result
      refine ⟨w.setModel reg.model n, .ok (.procedure (found.map fun i => ⟨reg.model, i⟩)), ?_, ?_⟩
      · simp only [changeRegistry, changeModel, hm, hchange]
        rfl
      · intro x hx
        cases hx
  | error x =>
      refine ⟨w, .error x, ?_, ?_⟩
      · simp only [changeRegistry, changeModel, hm, hchange]
        rfl
      · intro y hy
        cases hy
        exact ⟨rfl, rfl⟩

/-- **A registry refuses** only the types of other models, and every type once the model is
finalized; it never meets a removed record. -/
theorem Session.refusals (h : Session steps w) (hopen : IsOpen [] steps c) {reg : RegistryRef}
    {owner : EntityRef} {op : Operation} (htarget : c.target? = some (reg, owner, op)) :
    ∃ m w' a, w.model? reg.model = some m ∧ m.id = reg.model ∧ w.execute c = some (w', a) ∧
      ∀ x, a = .error x → w' = w ∧ m.Refuses owner op x := by
  have hgiven := target_given htarget hopen.2
  obtain ⟨m, hm, _⟩ := Session.hasRegistry h hgiven.1
  have hsound := Session.sound h _ m hm
  have hid : m.id = reg.model := Session.numbered h _ m hm
  have hresult := changeRegistry_result hm
  rcases Command.target?_eq_some htarget with rfl | ⟨k, da, rfl⟩ | rfl | ⟨da, rfl⟩
  · obtain ⟨w', a, hdoes, hfail⟩ := hresult fun m =>
      (m.set reg.id owner op).map fun made => (some made.1, made.2)
    refine ⟨m, w', a, hm, hid, hdoes, ?_⟩
    intro x hx
    obtain ⟨hw, hx⟩ := hfail x hx
    exact ⟨hw, Model.set_eq_error hsound (map_eq_error_iff.1 hx)⟩
  · obtain ⟨n, hn⟩ := Option.isSome_iff_exists.1 (Session.hasModel h hopen.2.2.2)
    obtain ⟨w', a, hdoes, hfail⟩ := hresult fun m =>
      (m.setConvention reg.id n owner op (.ofConvention da)).map fun made => (some made.1, made.2)
    refine ⟨m, w', a, hm, hid, ?_, ?_⟩
    · simp only [execute, hn]
      exact hdoes
    · intro x hx
      obtain ⟨hw, hx⟩ := hfail x hx
      exact ⟨hw, Model.setConvention_eq_error hsound (map_eq_error_iff.1 hx)⟩
  · obtain ⟨w', a, hdoes, hfail⟩ := hresult fun m => m.remove reg.id owner op
    refine ⟨m, w', a, hm, hid, hdoes, ?_⟩
    intro x hx
    obtain ⟨hw, hx⟩ := hfail x hx
    exact ⟨hw, Model.remove_eq_error hx⟩
  · obtain ⟨w', a, hdoes, hfail⟩ :=
      hresult fun m => m.removeConvention reg.id owner op (.ofConvention da)
    refine ⟨m, w', a, hm, hid, hdoes, ?_⟩
    intro x hx
    obtain ⟨hw, hx⟩ := hfail x hx
    exact ⟨hw, Model.removeConvention_eq_error hx⟩

/-- Slots and records in step: what a slot holds, that a record is in one slot at most, where
every record stands, that removal is final, and why a call on a registry fails. -/
structure InStep (steps : List Step) (w : Workspace) : Prop where
  slot : ∀ reg slot p, w.slot? reg slot = some p → ∃ m q, w.procedure? p = some (m, q) ∧
    q.removed = false ∧ p.model = reg.model ∧ q.owner.model = reg.model ∧
    q.owner.id = slot.owner ∧ m.ref? slot.owner = some q.owner ∧ q.operation = slot.operation
  once : ∀ reg reg' slot slot' p, w.slot? reg slot = some p → w.slot? reg' slot' = some p →
    reg = reg' ∧ slot = slot'
  home : ∀ p m q, w.procedure? p = some (m, q) →
    ∃ reg, Answered steps reg p ∧ (∀ reg', Answered steps reg' p → reg' = reg) ∧
      (q.removed = false ∧ w.slot? reg ⟨q.owner.id, q.operation⟩ = some p ∨
        q.removed = true ∧ ∀ reg' slot, w.slot? reg' slot ≠ some p)
  final : ∀ more w' p m q, Continues steps w more w' → w.procedure? p = some (m, q) →
    q.removed = true → (∃ m' q', w'.procedure? p = some (m', q') ∧ q'.removed = true) ∧
      ∀ reg slot, w'.slot? reg slot ≠ some p
  refusals : ∀ c reg owner op, IsOpen [] steps c → c.target? = some (reg, owner, op) →
    ∃ m w' a, w.model? reg.model = some m ∧ m.id = reg.model ∧ w.execute c = some (w', a) ∧
      ∀ x, a = .error x → w' = w ∧ m.Refuses owner op x

/-- **Slots and records stay in step** through every session. -/
theorem session_inStep (h : Session steps w) : InStep steps w where
  slot _ _ _ hslot := Session.slot h hslot
  once _ _ _ _ _ hslot hslot' := Session.slot_once h hslot hslot'
  home _ _ _ hp := Session.home h hp
  final more w' p m q hmore hp hremoved := by
    obtain ⟨m', q', hp', hremoved'⟩ := Run.removed hmore hp hremoved
    exact ⟨⟨m', q', hp', hremoved'⟩, Session.removed_slot (Session.append h hmore) hp' hremoved'⟩
  refusals _ _ _ _ hopen htarget := Session.refusals h hopen htarget

/-- A slot that is filled, emptied and filled again. -/
def refilled : List Step × Workspace :=
  (carryOn (IsOpen []) [] .empty
    [.createModel .standard, .addType 0 "Blog" none, .createRegistry 0,
      .set ⟨0, 0⟩ ⟨0, 0, "Blog"⟩ .insert, .remove ⟨0, 0⟩ ⟨0, 0, "Blog"⟩ .insert,
      .set ⟨0, 0⟩ ⟨0, 0, "Blog"⟩ .insert]).get rfl

/-- The slot holds the second record, and the first has left it for good. -/
theorem session_inStep_refilled :
    Session refilled.1 refilled.2 ∧ InStep refilled.1 refilled.2 ∧
      refilled.2.slot? ⟨0, 0⟩ ⟨0, .insert⟩ = some ⟨0, 1⟩ ∧
      (refilled.2.procedure? ⟨0, 0⟩).any (·.2.removed) = true := by
  have hsession : Session refilled.1 refilled.2 :=
    Run.carryOn .nil (Option.some_get rfl).symm
  exact ⟨hsession, session_inStep hsession, rfl, rfl⟩

end Workspace

end ProcedureMapping
