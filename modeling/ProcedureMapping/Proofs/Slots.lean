import ProcedureMapping.Proofs.Frame

/-!
# Slots and records

The slots of the registries and the removed flags of the records are kept apart, and yet they stay
in step.  A model is **sound** when every slot holds a record that is not removed and that belongs
there, when no record sits in two registries, and when every owner is a type of the model.

On a sound model a registry never meets a removed record, so it refuses a call only for what the
call itself is about.

Main statements:

* `sound_apply` — an orderly change keeps a model sound;
* `stays_apply` — a record leaves its slot only by being removed;
* `set_eq_error`, `setConvention_eq_error` — why a registry refuses.
-/

namespace ProcedureMapping

/-! ## Sound models -/

namespace Model

/-- What holds between the slots and the records of a model. -/
structure Sound (m : Model) : Prop where
  owned : ∀ (i : ProcedureId) (p : Procedure), m.procedures[i]? = some p →
    m.ref? p.owner.id = some p.owner
  served : ∀ (r : RegistryId) (slot : Slot) (i : ProcedureId), (m.registry r).get? slot = some i →
    ∃ p, m.procedures[i]? = some p ∧ p.removed = false ∧ p.owner.id = slot.owner ∧
      p.operation = slot.operation
  apart : ∀ (r r' : RegistryId) (slot slot' : Slot) (i : ProcedureId),
    (m.registry r).get? slot = some i → (m.registry r').get? slot' = some i → r = r'

/-- Whether a change goes through the registries: it makes a record only for a type of the model
and for a slot of a registry that is there, and it removes one only from its slot. -/
def Orderly (m : Model) : Change → Prop
  | .create r owner _ _ => m.ref? owner.id = some owner ∧ r < m.registries.length
  | .procedure _ .detach | .stray .. => False
  | _ => True

/-- Whether a record is removed, or sits in its slot of the registry. -/
def Stays (m : Model) (r : RegistryId) (i : ProcedureId) : Prop :=
  ∃ p, m.procedures[i]? = some p ∧
    (p.removed = true ∨ (m.registry r).get? ⟨p.owner.id, p.operation⟩ = some i)

variable {m : Model} {e : Change}

theorem sound_new (i : ModelId) (config : Config) : (new i config).Sound where
  owned := by
    intro i p hp
    simp [new] at hp
  served := by
    intro r slot i hget
    simp [new, registry] at hget
  apart := by
    intro r r' slot slot' i hget
    simp [new, registry] at hget

/-- A slot tells which record it holds, so a record has one slot only. -/
theorem Sound.slot_unique (hm : m.Sound) {r r' : RegistryId} {slot slot' : Slot}
    {i : ProcedureId} (h : (m.registry r).get? slot = some i)
    (h' : (m.registry r').get? slot' = some i) : r = r' ∧ slot = slot' := by
  refine ⟨hm.apart r r' slot slot' i h h', ?_⟩
  obtain ⟨p, hp, _, howner, hop⟩ := hm.served r slot i h
  obtain ⟨q, hq, _, howner', hop'⟩ := hm.served r' slot' i h'
  obtain rfl : p = q := Option.some.inj (hp.symm.trans hq)
  cases slot
  cases slot'
  simp_all

theorem owned_apply (hm : m.Sound) (hallowed : m.Allows e) (horderly : m.Orderly e)
    {i : ProcedureId} {q : Procedure} (hq : (m.apply e).procedures[i]? = some q) :
    (m.apply e).ref? q.owner.id = some q.owner := by
  cases hp : m.procedures[i]? with
  | none =>
      obtain ⟨_, owner, op, s, rfl, ⟨r, rfl⟩ | rfl⟩ := procedure_new hp hq
      · exact ref?_apply hallowed horderly.1
      · exact horderly.elim
  | some p =>
      obtain ⟨q', hq', hafter⟩ := procedure_apply hp e
      obtain rfl : q' = q := Option.some.inj (hq'.symm.trans hq)
      have howner : q'.owner = p.owner := by
        rcases hafter with rfl | ⟨change, _, rfl⟩
        · rfl
        · exact p.owner_apply change
      rw [howner]
      exact ref?_apply hallowed (hm.owned i p hp)

/-- A record that is still in a slot after a change was not removed by it. -/
theorem removed_of_served (hm : m.Sound) (horderly : m.Orderly e) {r : RegistryId}
    {slot : Slot} {i : ProcedureId} {p q : Procedure}
    (hbefore : (m.registry r).get? slot = some i)
    (hafter : ((m.apply e).registry r).get? slot = some i) (hp : m.procedures[i]? = some p)
    (hremoved : p.removed = false)
    (hq : q = p ∨ ∃ change, m.Acts e i change ∧ q = p.apply change) : q.removed = false := by
  rcases hq with rfl | ⟨change, hacts, rfl⟩
  · exact hremoved
  · cases hacts with
    | procedure =>
        have hkept : change ≠ .detach := by
          rintro rfl
          exact horderly
        rw [Bool.eq_false_iff, ne_eq, Procedure.removed_apply]
        simp [hremoved, hkept]
    | @vacate r' owner op s _ held =>
        -- The slot that the removal empties is the slot that the record is still in.
        obtain ⟨rfl, rfl⟩ := hm.slot_unique hbefore (declared?_eq_some held).2
        rw [vacate_empties held] at hafter
        cases hafter

theorem served_apply (hm : m.Sound) (horderly : m.Orderly e) {r : RegistryId} {slot : Slot}
    {i : ProcedureId} (hget : ((m.apply e).registry r).get? slot = some i) :
    ∃ q, (m.apply e).procedures[i]? = some q ∧ q.removed = false ∧
      q.owner.id = slot.owner ∧ q.operation = slot.operation := by
  rcases m.slot_apply e r slot with hsame | ⟨owner, op, s, rfl, rfl, hnew⟩ | ⟨_, _, _, _, _, hnone⟩
  · have hbefore : (m.registry r).get? slot = some i := hsame.symm.trans hget
    obtain ⟨p, hp, hremoved, howner, hop⟩ := hm.served r slot i hbefore
    obtain ⟨q, hq, hafter⟩ := procedure_apply hp e
    have hlive := removed_of_served hm horderly hbefore hget hp hremoved hafter
    refine ⟨q, hq, hlive, ?_⟩
    rcases hafter with rfl | ⟨change, _, rfl⟩
    · exact ⟨howner, hop⟩
    · simp [howner, hop]
  · obtain rfl : m.procedures.length = i := Option.some.inj (hnew.symm.trans hget)
    refine ⟨.fresh owner op s, ?_, rfl, rfl, rfl⟩
    rw [create_eq, List.getElem?_concat_length]
  · rw [hnone] at hget
    cases hget

theorem apart_apply (hm : m.Sound) {r r' : RegistryId} {slot slot' : Slot} {i : ProcedureId}
    (h : ((m.apply e).registry r).get? slot = some i)
    (h' : ((m.apply e).registry r').get? slot' = some i) : r = r' := by
  -- The place of a record that is made is not taken before.
  have hfree : ∀ r slot, (m.registry r).get? slot ≠ some m.procedures.length := by
    intro r slot hget
    obtain ⟨p, hp, _⟩ := hm.served r slot _ hget
    simp at hp
  rcases m.slot_apply e r slot with hs | ⟨owner, op, s, rfl, _, hs⟩ | ⟨_, _, _, _, _, hs⟩
  · rcases m.slot_apply e r' slot' with hs' | ⟨_, _, _, _, _, hs'⟩ | ⟨_, _, _, _, _, hs'⟩
    · exact hm.apart r r' slot slot' i (hs.symm.trans h) (hs'.symm.trans h')
    · obtain rfl : m.procedures.length = i := Option.some.inj (hs'.symm.trans h')
      exact absurd (hs.symm.trans h) (hfree r slot)
    · rw [hs'] at h'
      cases h'
  · obtain rfl : m.procedures.length = i := Option.some.inj (hs.symm.trans h)
    rcases m.slot_apply _ r' slot' with hs' | ⟨_, _, _, heq, _, _⟩ | ⟨_, _, _, heq, _, _⟩
    · exact absurd (hs'.symm.trans h') (hfree r' slot')
    · exact (Change.create.inj heq).1
    · cases heq
  · rw [hs] at h
    cases h

/-- **An orderly change keeps a model sound.** -/
theorem sound_apply (hm : m.Sound) (hallowed : m.Allows e) (horderly : m.Orderly e) :
    (m.apply e).Sound where
  owned _ _ hq := owned_apply hm hallowed horderly hq
  served _ _ _ hget := served_apply hm horderly hget
  apart _ _ _ _ _ h h' := apart_apply hm h h'

/-- A record leaves its slot only by being removed. -/
theorem stays_apply {r : RegistryId} {i : ProcedureId} (h : m.Stays r i)
    (hallowed : m.Allows e) : (m.apply e).Stays r i := by
  obtain ⟨p, hp, hstays⟩ := h
  obtain ⟨q, hq, hafter⟩ := procedure_apply hp e
  have hkept : q.owner = p.owner ∧ q.operation = p.operation := by
    rcases hafter with rfl | ⟨change, _, rfl⟩ <;> simp
  refine ⟨q, hq, ?_⟩
  rw [hkept.1, hkept.2]
  rcases hstays with hremoved | hslot
  · left
    rcases hafter with rfl | ⟨change, _, rfl⟩
    · exact hremoved
    · exact (p.removed_apply change).2 (.inl hremoved)
  · rcases m.slot_apply e r ⟨p.owner.id, p.operation⟩ with
      hsame | ⟨owner, op, s, rfl, heq, _⟩ | ⟨owner, op, s, rfl, heq, _⟩
    · exact .inr (hsame.trans hslot)
    · obtain ⟨_, _, hfree⟩ := hallowed
      rw [← heq, hslot] at hfree
      cases hfree
    · left
      obtain ⟨howner, _, _⟩ := hallowed
      have hheld : m.declared? r owner op = some i := by
        rw [declared?_eq_get? howner, ← heq, hslot]
      rw [vacate_eq hheld] at hq
      obtain rfl : p.detach = q := by simpa [hp] using hq
      rfl

theorem stays_create {r : RegistryId} (hr : r < m.registries.length) (owner : EntityRef)
    (op : Operation) (s : Source) :
    (m.apply (.create r owner op s)).Stays r m.procedures.length := by
  refine ⟨.fresh owner op s, ?_, .inr ?_⟩
  · rw [create_eq, List.getElem?_concat_length]
  · rw [create_eq, registry_set hr, if_pos rfl, SortedMap.get?_insert]
    exact if_pos rfl

theorem stays_of_slot (hm : m.Sound) {r : RegistryId} {slot : Slot}
    {i : ProcedureId} (h : (m.registry r).get? slot = some i) : m.Stays r i := by
  obtain ⟨p, hp, _, howner, hop⟩ := hm.served r slot i h
  refine ⟨p, hp, .inr ?_⟩
  rw [howner, hop]
  exact h

/-! ## What a registry answers -/

theorem reuseOrCreate_eq_ok {m' : Model} {r : RegistryId} {found : Option ProcedureId}
    {owner : EntityRef} {op : Operation} {s : Source} {i : ProcedureId}
    (h : m.reuseOrCreate r found owner op s = .ok (i, m')) :
    found = some i ∨ i = m.procedures.length ∧ m' = m.apply (.create r owner op s) := by
  cases found with
  | none =>
      have hmade : m.create r owner op s = (i, m') := by simpa [reuseOrCreate] using h
      right
      refine ⟨(congrArg Prod.fst hmade).symm, ?_⟩
      rw [apply, hmade]
  | some j =>
      obtain ⟨_, _, heq⟩ := map_eq_ok_iff.1 h
      cases heq
      exact .inl rfl

/-- The only record that a registry makes is the one that it hands out. -/
theorem reuseOrCreate_made {m' : Model} {r : RegistryId} {found : Option ProcedureId}
    {owner : EntityRef} {op : Operation} {s : Source} {i j : ProcedureId} {q : Procedure}
    (h : m.reuseOrCreate r found owner op s = .ok (i, m')) (hj : m.procedures[j]? = none)
    (hq : m'.procedures[j]? = some q) : j = i := by
  have hlength : m.procedures.length ≤ j := List.getElem?_eq_none_iff.1 hj
  have hlt : j < m'.procedures.length := (List.getElem?_eq_some_iff.1 hq).1
  cases found with
  | none =>
      rcases reuseOrCreate_eq_ok h with hi | ⟨rfl, rfl⟩
      · cases hi
      · exact (procedure_new hj hq).1
  | some k =>
      obtain ⟨n, hn, heq⟩ := map_eq_ok_iff.1 h
      cases heq
      unfold restamp at hn
      split at hn
      · obtain ⟨p, _, rfl⟩ := map_eq_ok_iff.1 hn
        rw [setProcedure, List.length_set] at hlt
        exact absurd hlength (Nat.not_le_of_lt hlt)
      · cases hn
        exact absurd hlength (Nat.not_le_of_lt hlt)

/-- What a registry hands out is at least as strong as the call. -/
theorem reuseOrCreate_source {m' : Model} {r : RegistryId} {found : Option ProcedureId}
    {owner : EntityRef} {op : Operation} {s : Source} {i : ProcedureId} {q : Procedure}
    (h : m.reuseOrCreate r found owner op s = .ok (i, m')) (hq : m'.procedures[i]? = some q) :
    s ≤ q.source := by
  cases found with
  | none =>
      rcases reuseOrCreate_eq_ok h with hi | ⟨rfl, rfl⟩
      · cases hi
      · rw [create_eq, List.getElem?_concat_length] at hq
        have hfresh : Procedure.fresh owner op s = q := Option.some.inj hq
        rw [← hfresh]
        exact Source.le_refl s
  | some k =>
      obtain ⟨n, hn, heq⟩ := map_eq_ok_iff.1 h
      cases heq
      unfold restamp at hn
      split at hn
      · next p hp =>
          obtain ⟨p', hp', rfl⟩ := map_eq_ok_iff.1 hn
          obtain ⟨_, hraised⟩ := Procedure.restamp_eq_ok hp'
          have hi : i < m.procedures.length := (List.getElem?_eq_some_iff.1 hp).1
          have hset : p' = q := by simpa [setProcedure, hi] using hq
          rw [← hset, hraised]
          exact Source.le_max_left s (some p.source)
      · next hnone =>
          cases hn
          rw [hnone] at hq
          cases hq

theorem lookup?_eq_some {r : RegistryId} {h : Model} {owner : EntityRef} {op : Operation}
    {i : ProcedureId} (hi : m.lookup? r h owner op = some i) :
    ∃ slot, (m.registry r).get? slot = some i := by
  unfold lookup? at hi
  split at hi
  · split at hi
    · next hslot =>
        cases hi
        exact ⟨_, hslot⟩
    · split at hi
      · exact ⟨_, hi⟩
      · cases hi
  · cases hi

theorem vacate_fst (m : Model) (r : RegistryId) (owner : EntityRef) (op : Operation) :
    (m.vacate r owner op).1 = m.declared? r owner op := by
  unfold vacate
  cases m.declared? r owner op with
  | none => rfl
  | some i =>
      dsimp only
      split <;> rfl

/-- On a sound model that is open, a record in a slot has its source raised. -/
theorem reuseOrCreate_some (hm : m.Sound) {r : RegistryId} {slot : Slot} {i : ProcedureId}
    (hslot : (m.registry r).get? slot = some i) (hopen : m.settings.readOnly = false)
    (owner : EntityRef) (op : Operation) (s : Source) : ∃ p, m.procedures[i]? = some p ∧
      m.reuseOrCreate r (some i) owner op s = .ok (i, m.setProcedure i (p.raiseSource s)) := by
  obtain ⟨p, hp, hlive, _⟩ := hm.served r slot i hslot
  have hwritable : p.ensureWritable m.settings = .ok () := by
    rw [Procedure.ensureWritable_eq_ok_iff]
    simp [Procedure.isWritable, hlive, hopen]
  refine ⟨p, hp, ?_⟩
  simp only [reuseOrCreate, restamp, hp, Procedure.restamp, hwritable]
  rfl

/-- On a sound model a registry refuses to reuse a record only when the model is finalized. -/
theorem reuseOrCreate_ok (hm : m.Sound) {r : RegistryId} {found : Option ProcedureId}
    (hfound : ∀ i, found = some i → ∃ slot, (m.registry r).get? slot = some i)
    (hopen : m.settings.readOnly = false) (owner : EntityRef) (op : Operation) (s : Source) :
    ∃ result, m.reuseOrCreate r found owner op s = .ok result := by
  cases found with
  | none => exact ⟨_, rfl⟩
  | some i =>
      obtain ⟨slot, hslot⟩ := hfound i rfl
      obtain ⟨p, _, hreuse⟩ := reuseOrCreate_some hm hslot hopen owner op s
      exact ⟨_, hreuse⟩

/-- Why a registry refuses a call: the owner belongs to another model, or the model is
finalized. -/
def Refuses (m : Model) (owner : EntityRef) (op : Operation) (x : Error) : Prop :=
  owner.model ≠ m.id ∧ x = .unknownEntityType owner.name ∨
    owner.model = m.id ∧ m.settings.readOnly = true ∧
      x = .readOnlyModel (owner.name ++ " " ++ op.name ++ " stored procedure")

section Refusals

variable {r : RegistryId} {owner : EntityRef} {op : Operation} {x : Error}

theorem ensureRegistrable_eq_error (h : m.ensureRegistrable owner op = .error x) :
    m.Refuses owner op x := by
  unfold ensureRegistrable at h
  split at h
  · next howner =>
      unfold ModelSettings.ensureWritable at h
      split at h
      · next hfinal =>
          cases h
          exact .inr ⟨howner, hfinal, rfl⟩
      · cases h
  · next howner =>
      cases h
      exact .inl ⟨howner, rfl⟩

theorem set_eq_error (hm : m.Sound) (h : m.set r owner op = .error x) :
    m.Refuses owner op x := by
  rcases bind_eq_error_iff.1 h with hcheck | ⟨_, hcheck, hreuse⟩
  · exact ensureRegistrable_eq_error hcheck
  · obtain ⟨_, hopen⟩ := ensureRegistrable_eq_ok hcheck
    obtain ⟨result, hok⟩ := reuseOrCreate_ok hm
      (fun i hi => ⟨_, (declared?_eq_some hi).2⟩) hopen owner op .explicit
    rw [hok] at hreuse
    cases hreuse

theorem setConvention_eq_error (hm : m.Sound) {h' : Model} {s : Source}
    (h : m.setConvention r h' owner op s = .error x) : m.Refuses owner op x := by
  rcases bind_eq_error_iff.1 h with hcheck | ⟨_, hcheck, hreuse⟩
  · exact ensureRegistrable_eq_error hcheck
  · obtain ⟨_, hopen⟩ := ensureRegistrable_eq_ok hcheck
    obtain ⟨result, hok⟩ := reuseOrCreate_ok hm
      (fun i hi => lookup?_eq_some hi) hopen owner op s
    rw [hok] at hreuse
    cases hreuse

theorem remove_eq_error (h : m.remove r owner op = .error x) : m.Refuses owner op x := by
  rcases bind_eq_error_iff.1 h with hcheck | ⟨_, _, hdone⟩
  · exact ensureRegistrable_eq_error hcheck
  · cases hdone

theorem removeConvention_eq_error {s : Source}
    (h : m.removeConvention r owner op s = .error x) : m.Refuses owner op x := by
  rcases bind_eq_error_iff.1 h with hcheck | ⟨_, _, hdone⟩
  · exact ensureRegistrable_eq_error hcheck
  · split at hdone <;> cases hdone

end Refusals

end Model

end ProcedureMapping
