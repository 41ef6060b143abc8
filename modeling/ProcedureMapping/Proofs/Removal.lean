import ProcedureMapping.Proofs.Closed
import ProcedureMapping.Proofs.Ledger

/-!
# Removal

A registry removes a record by emptying its slot and marking the record.  The record then **rests**:
nothing that is called later changes it or puts it back into a slot, and each handle on it reports
the removal — also once the model is finalized, and before any fault of the call itself is looked
for.

When the slot is filled again, it is with a fresh record, of which nothing is recorded but the
source of the call that made it.  The two records have nothing to do with each other.

Main statements:

* `execute_remove`, `execute_removeConvention` — what a removal does;
* `Run.rests` — what a run leaves of a removed record;
* `Effect.slot_filled` — how an empty slot is filled;
* `removal_terminal` — all of it, after any run.
-/

namespace ProcedureMapping

/-! ## Removals and contributions -/

/-- The registry, the type and the operation that a removal is about. -/
def Command.removal? : Command → Option (RegistryRef × EntityRef × Operation)
  | remove reg owner op | removeConvention reg owner op _ => some (reg, owner, op)
  | _ => none

/-- The registry, the type and the operation that a `set` or a `setConvention` is about, and the
source of the call. -/
def Command.contribution? : Command → Option (RegistryRef × EntityRef × Operation × Source)
  | set reg owner op => some (reg, owner, op, .explicit)
  | setConvention reg _ owner op da => some (reg, owner, op, .ofConvention da)
  | _ => none

theorem Command.removal?_eq_some {c : Command} {reg : RegistryRef} {owner : EntityRef}
    {op : Operation} (h : c.removal? = some (reg, owner, op)) :
    c = .remove reg owner op ∨ ∃ da, c = .removeConvention reg owner op da := by
  cases c with simp only [removal?, Option.some.injEq, Prod.mk.injEq, reduceCtorEq] at h
  | remove reg' owner' op' =>
      obtain ⟨rfl, rfl, rfl⟩ := h
      exact .inl rfl
  | removeConvention reg' owner' op' da =>
      obtain ⟨rfl, rfl, rfl⟩ := h
      exact .inr ⟨da, rfl⟩

/-- A record is made for a slot only by a contribution to that slot. -/
theorem Command.Makes.contribution {c : Command} {reg : RegistryRef} {owner : EntityRef}
    {op : Operation} {s : Source} (h : c.Makes reg.model (.create reg.id owner op s)) :
    c.contribution? = some (reg, owner, op, s) := by
  obtain ⟨i, r⟩ := reg
  cases h <;> rfl

namespace Procedure

theorem detach_of_removed {p : Procedure} (h : p.removed = true) : p.detach = p := by
  rw [detach, ← h]

/-- Nothing that is let through changes a removed record. -/
theorem apply_of_removed {settings : ModelSettings} {p : Procedure} {change : Change}
    (hremoved : p.removed = true) (hallowed : p.Allows settings change) :
    p.apply change = p := by
  have hclosed := p.ensureWritable_removed settings hremoved
  obtain rfl := eq_detach_of_closed hclosed hallowed
  exact detach_of_removed hremoved

end Procedure

namespace Workspace

variable {w w' : Workspace} {c : Command} {reg : RegistryRef} {owner : EntityRef}
  {op : Operation} {o : Outcome} {ref : ProcedureRef} {m : Model} {p : Procedure}
  {steps : List Step}

/-! ## What a removal does -/

/-- What a `remove` does that is not refused. -/
theorem execute_remove (h : w.execute (.remove reg owner op) = some (w', .ok o)) :
    ∃ m, w.model? reg.model = some m ∧
      w' = w.setModel reg.model (m.apply (.vacate reg.id owner op .explicit)) ∧
      o = .procedure ((m.declared? reg.id owner op).map fun i => ⟨reg.model, i⟩) := by
  simp only [execute] at h
  obtain ⟨m, found, m', hm, hchange, rfl, rfl⟩ := changeRegistry_ok h
  obtain ⟨_, _, hdone⟩ := bind_eq_ok_iff.1 hchange
  have hvacate : m.vacate reg.id owner op = (found, m') := Except.ok.inj hdone
  have hfound : m.declared? reg.id owner op = found := by rw [← m.vacate_fst, hvacate]
  exact ⟨m, hm, by rw [Model.apply, hvacate], by rw [hfound]⟩

/-- What a `removeConvention` does that is not refused: it removes what its source overrides, and
otherwise nothing happens. -/
theorem execute_removeConvention {da : Bool}
    (h : w.execute (.removeConvention reg owner op da) = some (w', .ok o)) :
    ∃ m, w.model? reg.model = some m ∧
      ((∃ recorded, m.declaredSource? reg.id owner op = some recorded ∧
          recorded ≤ .ofConvention da ∧
          w' = w.setModel reg.model (m.apply (.vacate reg.id owner op (.ofConvention da))) ∧
          o = .procedure ((m.declared? reg.id owner op).map fun i => ⟨reg.model, i⟩)) ∨
        (∀ recorded, m.declaredSource? reg.id owner op = some recorded →
          ¬ recorded ≤ .ofConvention da) ∧ w' = w ∧ o = .procedure none) := by
  simp only [execute] at h
  obtain ⟨m, found, m', hm, hchange, rfl, rfl⟩ := changeRegistry_ok h
  obtain ⟨_, _, hdone⟩ := bind_eq_ok_iff.1 hchange
  refine ⟨m, hm, ?_⟩
  cases hsource : m.declaredSource? reg.id owner op with
  | none =>
      rw [hsource] at hdone
      cases hdone
      right
      exact ⟨fun _ hnone => (Option.some_ne_none _ hnone.symm).elim, setModel_self hm, rfl⟩
  | some recorded =>
      rw [hsource] at hdone
      by_cases hover : (Source.ofConvention da).overrides (some recorded) = true
      · have hvacate : m.vacate reg.id owner op = (found, m') := by
          simpa only [hover, if_true, Except.ok.injEq] using hdone
        have hfound : m.declared? reg.id owner op = found := by rw [← m.vacate_fst, hvacate]
        left
        refine ⟨recorded, rfl, (Source.overrides_some _ _).1 hover, ?_, by rw [hfound]⟩
        rw [Model.apply, hvacate]
      · simp only [hover, Bool.false_eq_true, if_false, Except.ok.injEq, Prod.mk.injEq] at hdone
        obtain ⟨rfl, rfl⟩ := hdone
        right
        refine ⟨?_, setModel_self hm, rfl⟩
        intro recorded' heq hle
        obtain rfl : recorded = recorded' := Option.some.inj heq
        exact hover ((Source.overrides_some _ _).2 hle)

/-- **What a removal does** that hands out a record: it empties the record's slot. -/
theorem execute_removal (hremoval : c.removal? = some (reg, owner, op))
    (h : w.execute c = some (w', .ok (.procedure (some ref)))) :
    ∃ m s, w.model? reg.model = some m ∧ ref.model = reg.model ∧
      m.declared? reg.id owner op = some ref.id ∧
      w' = w.setModel reg.model (m.apply (.vacate reg.id owner op s)) := by
  have hheld : ∀ {m : Model}, Outcome.procedure (some ref) =
      .procedure ((m.declared? reg.id owner op).map fun i => ⟨reg.model, i⟩) →
      ref.model = reg.model ∧ m.declared? reg.id owner op = some ref.id := by
    intro m heq
    obtain ⟨i, hi, rfl⟩ := Option.map_eq_some_iff.1 (Outcome.procedure.inj heq).symm
    exact ⟨rfl, hi⟩
  rcases Command.removal?_eq_some hremoval with rfl | ⟨da, rfl⟩
  · obtain ⟨m, hm, hw', heq⟩ := execute_remove h
    obtain ⟨hmodel, hi⟩ := hheld heq
    exact ⟨m, _, hm, hmodel, hi, hw'⟩
  · obtain ⟨m, hm, ⟨_, _, _, hw', heq⟩ | ⟨_, _, heq⟩⟩ := execute_removeConvention h
    · obtain ⟨hmodel, hi⟩ := hheld heq
      exact ⟨m, _, hm, hmodel, hi, hw'⟩
    · cases heq

/-! ## Removed records -/

/-- A command leaves a removed record as it is. -/
theorem Effect.removed (h : w.Effect c w') (hp : w.procedure? ref = some (m, p))
    (hremoved : p.removed = true) : ∃ m', w'.procedure? ref = some (m', p) := by
  obtain ⟨m', p', hp', hafter⟩ := h.procedure_after hp
  have hsame : p' = p := by
    rcases hafter with ⟨_, hsame⟩ | ⟨e, _, hallowed, _, hsame | ⟨change, hacts, happly⟩⟩
    · exact hsame
    · exact hsame
    · rw [happly]
      cases hacts with
      | procedure =>
          obtain ⟨p'', hp'', hchange⟩ := hallowed
          have hget := (procedure?_eq_some_iff.1 hp).2
          obtain rfl : p'' = p := Option.some.inj (hp''.symm.trans hget)
          exact Procedure.apply_of_removed hremoved hchange
      | vacate => exact Procedure.detach_of_removed hremoved
  exact ⟨m', hsame ▸ hp'⟩

/-- A record that is in no slot is never put into one: what is put into slots is made for them. -/
theorem Effect.slotless (h : w.Effect c w') (hp : w.procedure? ref = some (m, p))
    (hfree : ∀ reg slot, w.slot? reg slot ≠ some ref) (reg : RegistryRef) (slot : Slot) :
    w'.slot? reg slot ≠ some ref := by
  intro hslot
  obtain ⟨m', hm', hmodel, hget⟩ := slot?_eq_some_iff.1 hslot
  have hbefore : ∀ {n : Model}, w.model? reg.model = some n →
      (n.registry reg.id).get? slot ≠ some ref.id := by
    intro n hn hheld
    exact hfree reg slot (slot?_eq_some_iff.2 ⟨n, hn, hmodel, hheld⟩)
  rcases h.model_before hm' with ⟨config, _, rfl⟩ | ⟨n, hn, rfl | ⟨e, _, _, rfl⟩⟩
  · simp [Model.new, Model.registry] at hget
  · exact hbefore hn hget
  · rcases n.slot_apply e reg.id slot with hsame | ⟨_, _, _, _, _, hnew⟩ | ⟨_, _, _, _, _, hnone⟩
    · exact hbefore hn (hsame.symm.trans hget)
    · -- The record that is put into the slot is one more than those that there were.
      have hid : n.procedures.length = ref.id := Option.some.inj (hnew.symm.trans hget)
      obtain ⟨hm, hp'⟩ := procedure?_eq_some_iff.1 hp
      rw [hmodel, hn] at hm
      obtain rfl : n = m := Option.some.inj hm
      have hlt := (List.getElem?_eq_some_iff.1 hp').1
      exact Nat.lt_irrefl _ (hid ▸ hlt)
    · rw [hnone] at hget
      cases hget

/-- **What a run leaves of a removed record** that is in no slot: all of it, in no slot. -/
theorem Run.rests {ok : List Step → Command → Prop} (h : Run ok w steps w')
    (hp : w.procedure? ref = some (m, p)) (hremoved : p.removed = true)
    (hfree : ∀ reg slot, w.slot? reg slot ≠ some ref) :
    (∃ m', w'.procedure? ref = some (m', p)) ∧ ∀ reg slot, w'.slot? reg slot ≠ some ref := by
  induction h with
  | nil => exact ⟨⟨m, hp⟩, hfree⟩
  | snoc _ single _ does ih =>
      obtain ⟨⟨m₁, hp₁⟩, hfree₁⟩ := ih
      have heffect := execute_effect single does
      exact ⟨heffect.removed hp₁ hremoved, heffect.slotless hp₁ hfree₁⟩

/-- A removed record at rest: it is in no slot, and every handle on it reports the removal. -/
structure Rests (w : Workspace) (ref : ProcedureRef) (m : Model) (q : Procedure) : Prop where
  found : w.procedure? ref = some (m, q)
  slotless : ∀ reg slot, w.slot? reg slot ≠ some ref
  refused : ∀ c, c.handle? = some ref →
    w.execute c = some (w, .error (.removedFromModel (q.displayName m.settings)))
  unable : ∀ write s, q.can m.settings write s = false
  unselectable : ∀ name,
    q.requireParameter m.settings name = .error (.removedFromModel (q.displayName m.settings))

theorem rests_of_removed (hp : w.procedure? ref = some (m, p)) (hremoved : p.removed = true)
    (hfree : ∀ reg slot, w.slot? reg slot ≠ some ref) : Rests w ref m p := by
  have hclosed := p.ensureWritable_removed m.settings hremoved
  exact ⟨hp, hfree, fun _ hhandle => execute_closed hp hclosed hhandle,
    Procedure.can_closed hclosed, Procedure.requireParameter_closed hclosed⟩

/-! ## The next record of a slot -/

/-- **How an empty slot is filled**: with a record that was not there before, of which nothing is
recorded but the source of the call that made it. -/
theorem Effect.slot_filled {slot : Slot} (h : w.Effect c w') (hempty : w.slot? reg slot = none)
    (hfilled : w'.slot? reg slot = some ref) :
    w.procedure? ref = none ∧ ∃ m' owner s,
      c.contribution? = some (reg, owner, slot.operation, s) ∧ owner.id = slot.owner ∧
      w'.procedure? ref = some (m', .fresh owner slot.operation s) := by
  obtain ⟨m', hm', hmodel, hget⟩ := slot?_eq_some_iff.1 hfilled
  have hbefore : ∀ {n : Model}, w.model? reg.model = some n →
      (n.registry reg.id).get? slot ≠ some ref.id := by
    intro n hn hheld
    have hslot : w.slot? reg slot = some ref := slot?_eq_some_iff.2 ⟨n, hn, hmodel, hheld⟩
    rw [hempty] at hslot
    cases hslot
  rcases h.model_before hm' with ⟨config, _, rfl⟩ | ⟨n, hn, rfl | ⟨e, hmakes, _, rfl⟩⟩
  · simp [Model.new, Model.registry] at hget
  · exact absurd hget (hbefore hn)
  · rcases n.slot_apply e reg.id slot with
      hsame | ⟨owner, op, s, rfl, rfl, hnew⟩ | ⟨_, _, _, _, _, hnone⟩
    · exact absurd (hsame.symm.trans hget) (hbefore hn)
    · have hid : ref.id = n.procedures.length := Option.some.inj (hget.symm.trans hnew)
      refine ⟨?_, n.apply (.create reg.id owner op s), owner, s, hmakes.contribution, rfl, ?_⟩
      · simp [procedure?, hmodel, hn, hid]
      · rw [procedure?_eq_some_iff, hmodel, hid, Model.create_eq, List.getElem?_concat_length]
        exact ⟨hm', rfl⟩
    · rw [hnone] at hget
      cases hget

/-- What a removal leaves behind: the removed record rests, what fills the slot next is another
record of which nothing is configured, and no call through a handle reaches another record than its
own. -/
structure Removed (w : Workspace) (reg : RegistryRef) (slot : Slot) (ref : ProcedureRef)
    (q : Procedure) : Prop where
  rests : ∃ m, Rests w ref m q
  refilled : ∀ c w' a p, c.isSingle = true → w.execute c = some (w', a) →
    w.slot? reg slot = none → w'.slot? reg slot = some p →
    p ≠ ref ∧ w.procedure? p = none ∧ ∃ m owner s made,
      c.contribution? = some (reg, owner, slot.operation, s) ∧ owner.id = slot.owner ∧
      w'.procedure? p = some (m, made) ∧ made = .fresh owner slot.operation s ∧
      made.Unconfigured owner slot.operation s
  apart : ∀ c w' a p p' m q', c.isSingle = true → w.execute c = some (w', a) →
    c.handle? = some p → p' ≠ p → w.procedure? p' = some (m, q') →
    ∃ m', w'.procedure? p' = some (m', q')

/-- **Removal is terminal**, whatever is called after it. -/
theorem removal_terminal {past : List Step} {w₁ w₂ : Workspace} (hsession : Session past w)
    (hopen : IsOpen [] past c) (hremoval : c.removal? = some (reg, owner, op))
    (hdoes : w.execute c = some (w₁, .ok (.procedure (some ref))))
    (hmore : FreeRun w₁ steps w₂) :
    ∃ m q, w.procedure? ref = some (m, q) ∧ w.slot? reg ⟨owner.id, op⟩ = some ref ∧
      w₁.slot? reg ⟨owner.id, op⟩ = none ∧ q.Retired q.detach ∧
      Removed w₂ reg ⟨owner.id, op⟩ ref q.detach := by
  obtain ⟨m, s, hm, hmodel, hheld, hw₁⟩ := execute_removal hremoval hdoes
  have hslot : w.slot? reg ⟨owner.id, op⟩ = some ref :=
    slot?_eq_some_iff.2 ⟨m, hm, hmodel, (Model.declared?_eq_some hheld).2⟩
  obtain ⟨n, q, hq, _⟩ := Session.slot hsession hslot
  have hm₁ : w₁.model? reg.model = some (m.apply (.vacate reg.id owner op s)) := by
    rw [hw₁, model?_setModel hm, if_pos rfl]
  have hempty : w₁.slot? reg ⟨owner.id, op⟩ = none := by
    rw [slot?, hm₁, Option.bind_some, Model.vacate_empties hheld, Option.map_none]
  have hq₁ : w₁.procedure? ref = some (m.apply (.vacate reg.id owner op s), q.detach) := by
    obtain ⟨hn, hget⟩ := procedure?_eq_some_iff.1 hq
    rw [hmodel, hm] at hn
    obtain rfl : m = n := Option.some.inj hn
    rw [procedure?_eq_some_iff, hmodel]
    refine ⟨hm₁, ?_⟩
    rw [Model.vacate_eq hheld, List.getElem?_modify_eq, hget]
    rfl
  have hsingle : c.isSingle = true := by
    rcases Command.removal?_eq_some hremoval with rfl | ⟨da, rfl⟩ <;> rfl
  -- The record left its slot, and a record has one slot only.
  have hfree : ∀ reg slot, w₁.slot? reg slot ≠ some ref :=
    Session.removed_slot (.snoc hsession hsingle hopen hdoes) hq₁ rfl
  obtain ⟨⟨m₂, hq₂⟩, hfree₂⟩ := hmore.rests hq₁ rfl hfree
  refine ⟨n, q, hq, hslot, hempty, q.retired_detach, ⟨m₂, rests_of_removed hq₂ rfl hfree₂⟩, ?_, ?_⟩
  · intro c' w' a p hsingle' hdoes' hempty' hfilled
    obtain ⟨hnew, m', owner', s', hcall, howner, hp⟩ :=
      (execute_effect hsingle' hdoes').slot_filled hempty' hfilled
    refine ⟨?_, hnew, m', owner', s', _, hcall, howner, hp, rfl,
      Procedure.unconfigured_fresh owner' op s'⟩
    rintro rfl
    rw [hq₂] at hnew
    cases hnew
  · intro c' w' a p p' m' q' hsingle' hdoes' hhandle hother hp'
    exact (execute_effect hsingle' hdoes').elsewhere hhandle hother hp'

/-- A model with one mapped operation, configured explicitly. -/
def removable : List Step × Workspace :=
  (carryOn (IsOpen []) [] .empty
    [.createModel .standard, .addType 0 "Blog" none, .createRegistry 0,
      .set ⟨0, 0⟩ ⟨0, 0, "Blog"⟩ .insert, .configure ⟨0, 0⟩ (.name "add_blog")]).get rfl

/-- The same with the procedure removed. -/
def vacated : Workspace :=
  ((removable.2.execute (.remove ⟨0, 0⟩ ⟨0, 0, "Blog"⟩ .insert)).get rfl).1

/-- The slot is filled again by a convention, and a handle on the removed procedure is used before
and after the model is finalized. -/
def resumed : List Step × Workspace :=
  (carryOn (fun _ _ => True) [] vacated
    [.setConvention ⟨0, 0⟩ 0 ⟨0, 0, "Blog"⟩ .insert false, .configure ⟨0, 0⟩ .defaultName,
      .finalize 0, .configure ⟨0, 0⟩ (.select "id")]).get rfl

/-- The removed procedure keeps its name, and the next one has none. -/
theorem removal_terminal_resumed :
    (∃ m q, removable.2.procedure? ⟨0, 0⟩ = some (m, q) ∧
      removable.2.slot? ⟨0, 0⟩ ⟨0, .insert⟩ = some ⟨0, 0⟩ ∧
      vacated.slot? ⟨0, 0⟩ ⟨0, .insert⟩ = none ∧ q.Retired q.detach ∧
      Removed resumed.2 ⟨0, 0⟩ ⟨0, .insert⟩ ⟨0, 0⟩ q.detach) ∧
    resumed.1.map (·.answer) =
      [.ok (.procedure (some ⟨0, 1⟩)), .error (.removedFromModel "add_blog"), .ok .done,
        .error (.removedFromModel "add_blog")] ∧
    (resumed.2.procedure? ⟨0, 1⟩).map (fun (_, q) => (q.name.value, q.source)) =
      some (none, .convention) := by
  have hsession : Session removable.1 removable.2 :=
    Run.carryOn .nil (Option.some_get rfl).symm
  have hopen : IsOpen [] removable.1 (.remove ⟨0, 0⟩ ⟨0, 0, "Blog"⟩ .insert) := by decide
  have hdoes : removable.2.execute (.remove ⟨0, 0⟩ ⟨0, 0, "Blog"⟩ .insert) =
      some (vacated, .ok (.procedure (some ⟨0, 0⟩))) := rfl
  have hmore : FreeRun vacated resumed.1 resumed.2 :=
    Run.carryOn .nil (Option.some_get rfl).symm
  exact ⟨removal_terminal hsession hopen rfl hdoes hmore, rfl, rfl⟩

end Workspace

end ProcedureMapping
