import ProcedureMapping.Proofs.Effect

/-!
# What changes keep

A change leaves most of a model as it is.  A model keeps its id, its configuration, its types under
their ids and its registries; a record keeps its owner and its operation, and once it is removed,
or explicit, it stays so.  Nothing is ever deleted: records and registries are only added.

A change **acts** on a record directly, or by emptying the slot that the record sits in.

Main statements:

* `Model.procedure_apply`, `Model.procedure_new` — the records after a change;
* `Model.slot_apply` — the slots after a change;
* `Effect.procedure_after`, `Effect.procedure_before` — a record after a command, and where it comes
  from.
-/

namespace ProcedureMapping

/-! ## Records -/

namespace Procedure

@[simp] theorem owner_apply (p : Procedure) (change : Change) :
    (p.apply change).owner = p.owner := by
  rcases change with ⟨w, s⟩ | _ | _ | _
  · cases w <;> rfl
  all_goals rfl

@[simp] theorem operation_apply (p : Procedure) (change : Change) :
    (p.apply change).operation = p.operation := by
  rcases change with ⟨w, s⟩ | _ | _ | _
  · cases w <;> rfl
  all_goals rfl

theorem removed_record (p : Procedure) (w : Write) (s : Source) :
    (p.record w s).removed = p.removed := by
  cases w <;> rfl

theorem source_record (p : Procedure) (w : Write) (s : Source) :
    (p.record w s).source = p.source := by
  cases w <;> rfl

/-- Only detaching removes a record, and nothing brings it back. -/
theorem removed_apply (p : Procedure) (change : Change) :
    (p.apply change).removed = true ↔ p.removed = true ∨ change = .detach := by
  rcases change with ⟨w, s⟩ | _ | _ | _
  · simp [apply, removed_record]
  all_goals simp [apply, bound, raiseSource, detach]

/-- Only raising the source changes it. -/
theorem source_apply (p : Procedure) (change : Change) :
    (p.apply change).source = p.source ∨
      ∃ s, change = .raise s ∧ (p.apply change).source = s.max (some p.source) := by
  rcases change with ⟨w, s⟩ | _ | s | _
  · exact .inl (p.source_record w s)
  · exact .inl rfl
  · exact .inr ⟨s, rfl, rfl⟩
  · exact .inl rfl

end Procedure

theorem Source.explicit_le_iff {s : Source} : Source.explicit ≤ s ↔ s = .explicit := by
  constructor
  · intro h
    exact le_antisymm (le_explicit s) h
  · rintro rfl
    exact le_refl _

theorem Source.max_eq_explicit_iff {s : Source} {r : Option Source} :
    s.max r = .explicit ↔ s = .explicit ∨ r = some .explicit := by
  cases r with
  | none => simp
  | some t => cases s <;> cases t <;> decide

theorem Procedure.source_apply_explicit {p : Procedure} {change : Procedure.Change}
    (h : p.source = .explicit) : (p.apply change).source = .explicit := by
  rcases p.source_apply change with hsame | ⟨s, _, hraised⟩
  · rw [hsame, h]
  · rw [hraised, h]
    exact Source.max_eq_explicit_iff.2 (.inr rfl)

/-! ## Models -/

namespace Model

variable {m : Model} {e : Change}

theorem create_eq (m : Model) (r : RegistryId) (owner : EntityRef) (op : Operation)
    (s : Source) :
    m.apply (.create r owner op s) =
      { m with
        procedures := m.procedures ++ [.fresh owner op s]
        registries :=
          m.registries.set r ((m.registry r).insert ⟨owner.id, op⟩ m.procedures.length) } := rfl

theorem vacate_eq {r : RegistryId} {owner : EntityRef} {op : Operation} {s : Source}
    {i : ProcedureId} (h : m.declared? r owner op = some i) :
    m.apply (.vacate r owner op s) =
      { m with
        procedures := m.procedures.modify i Procedure.detach
        registries := m.registries.set r ((m.registry r).erase ⟨owner.id, op⟩) } := by
  cases hp : m.procedures[i]? with
  | none =>
      have hlist : m.procedures.modify i Procedure.detach = m.procedures :=
        List.modify_eq_self (List.getElem?_eq_none_iff.1 hp)
      simp [apply, vacate, h, setRegistry, hp, hlist]
  | some p =>
      have hlist := congrArg Model.procedures (setProcedure_apply hp .detach)
      simp only [setProcedure, apply, Procedure.apply] at hlist
      simp only [apply, vacate, h, setRegistry, setProcedure, hp, hlist]

/-- Removal either finds nothing and changes nothing, or empties a slot and detaches the record
that sat in it. -/
theorem vacate_cases (m : Model) (r : RegistryId) (owner : EntityRef) (op : Operation)
    (s : Source) :
    m.apply (.vacate r owner op s) = m ∨
      ∃ i, m.declared? r owner op = some i ∧ m.apply (.vacate r owner op s) =
        { m with
          procedures := m.procedures.modify i Procedure.detach
          registries := m.registries.set r ((m.registry r).erase ⟨owner.id, op⟩) } := by
  cases h : m.declared? r owner op with
  | none => exact .inl (by simp [apply, vacate, h])
  | some i => exact .inr ⟨i, rfl, vacate_eq h⟩

theorem declared?_eq_some {r : RegistryId} {owner : EntityRef} {op : Operation}
    {i : ProcedureId} (h : m.declared? r owner op = some i) :
    owner.model = m.id ∧ (m.registry r).get? ⟨owner.id, op⟩ = some i := by
  unfold declared? at h
  split at h
  · next howner => exact ⟨howner, h⟩
  · cases h

@[simp] theorem id_apply (m : Model) (e : Change) : (m.apply e).id = m.id := by
  cases e with
  | vacate r owner op s =>
      rcases m.vacate_cases r owner op s with h | ⟨i, _, h⟩ <;> rw [h]
  | _ => rfl

@[simp] theorem config_apply (m : Model) (e : Change) :
    (m.apply e).settings.config = m.settings.config := by
  cases e with
  | vacate r owner op s =>
      rcases m.vacate_cases r owner op s with h | ⟨i, _, h⟩ <;> rw [h]
  | _ => rfl

/-- Only a change of the default schema changes it. -/
theorem defaultSchema_apply (m : Model) (e : Change) :
    (m.apply e).settings.defaultSchema = m.settings.defaultSchema ∨
      ∃ schema s, e = .defaultSchema schema s := by
  cases e with
  | vacate r owner op s =>
      rcases m.vacate_cases r owner op s with h | ⟨i, _, h⟩ <;> exact .inl (by rw [h])
  | defaultSchema schema s => exact .inr ⟨schema, s, rfl⟩
  | _ => exact .inl rfl

theorem readOnly_apply (h : m.settings.readOnly = true) :
    (m.apply e).settings.readOnly = true := by
  cases e with
  | vacate r owner op s =>
      rcases m.vacate_cases r owner op s with hm | ⟨i, _, hm⟩ <;> rw [hm] <;> exact h
  | finalize => rfl
  | _ => exact h

theorem registries_length_apply (m : Model) (e : Change) :
    m.registries.length ≤ (m.apply e).registries.length := by
  cases e with
  | vacate r owner op s =>
      rcases m.vacate_cases r owner op s with h | ⟨i, _, h⟩
      · simp [h]
      · simp [h]
  | create r owner op s => simp [create_eq]
  | registry => simp [apply, addRegistry]
  | _ => exact Nat.le_refl _

/-- A model keeps its types under their ids and their names. -/
theorem ref?_apply {i : TypeId} {t : EntityRef} (hallowed : m.Allows e)
    (h : m.ref? i = some t) : (m.apply e).ref? i = some t := by
  obtain ⟨entry, hentry, rfl⟩ := ref?_eq_some_iff.1 h
  cases e with
  | type name base =>
      have hi : i < m.types.length := (List.getElem?_eq_some_iff.1 hentry).1
      have happ : (m.types ++ [⟨name, base, .empty⟩])[i]? = some entry := by
        rw [List.getElem?_append_left hi, hentry]
      simp [ref?, apply, happ]
  | annotations j found annotations =>
      obtain ⟨_, hfound⟩ := hallowed
      by_cases hij : j = i
      · subst hij
        obtain rfl : found = entry := Option.some.inj (hfound.symm.trans hentry)
        obtain ⟨hj, _⟩ := List.getElem?_eq_some_iff.1 hentry
        simp [ref?, apply, setAnnotations, hj]
      · simp [ref?, apply, setAnnotations, List.getElem?_set_ne hij, hentry]
  | vacate r owner op s =>
      rcases m.vacate_cases r owner op s with hm | ⟨_, _, hm⟩ <;> rw [hm] <;> exact h
  | _ => exact h

/-! ### Records -/

/-- Which record a change acts on, and how. -/
inductive Acts (m : Model) : Change → ProcedureId → Procedure.Change → Prop
  | procedure {i change} : Acts m (.procedure i change) i change
  | vacate {r owner op s i} (held : m.declared? r owner op = some i) :
      Acts m (.vacate r owner op s) i .detach

/-- A record lets through what acts on it: nothing keeps a registry from dropping it. -/
theorem Acts.allows {i : ProcedureId} {p : Procedure} {change : Procedure.Change}
    (h : m.Acts e i change) (hallowed : m.Allows e) (hp : m.procedures[i]? = some p) :
    p.Allows m.settings change := by
  cases h with
  | procedure => exact hallowed.procedure hp
  | vacate => trivial

/-- **A record after a change** is as it was, or as the change leaves it that acts on it. -/
theorem procedure_apply {i : ProcedureId} {p : Procedure} (hp : m.procedures[i]? = some p)
    (e : Change) : ∃ q, (m.apply e).procedures[i]? = some q ∧
      (q = p ∨ ∃ change, m.Acts e i change ∧ q = p.apply change) := by
  have hi : i < m.procedures.length := (List.getElem?_eq_some_iff.1 hp).1
  cases e with
  | create r owner op s =>
      exact ⟨p, by rw [create_eq, List.getElem?_append_left hi, hp], .inl rfl⟩
  | stray owner op s =>
      refine ⟨p, ?_, .inl rfl⟩
      simp only [apply, addProcedure]
      rw [List.getElem?_append_left hi, hp]
  | procedure j change =>
      by_cases hij : j = i
      · subst hij
        exact ⟨p.apply change, by simp [apply, hp], .inr ⟨change, .procedure, rfl⟩⟩
      · exact ⟨p, by simp [apply, hij, hp], .inl rfl⟩
  | vacate r owner op s =>
      rcases m.vacate_cases r owner op s with hm | ⟨j, hheld, hm⟩
      · exact ⟨p, by rw [hm, hp], .inl rfl⟩
      · by_cases hij : j = i
        · subst hij
          exact ⟨p.detach, by simp [hm, hp], .inr ⟨.detach, .vacate hheld, rfl⟩⟩
        · exact ⟨p, by simp [hm, hij, hp], .inl rfl⟩
  | _ => exact ⟨p, hp, .inl rfl⟩

/-- A record that was not there before a change is the next one, and fresh. -/
theorem procedure_new {i : ProcedureId} {q : Procedure} (hp : m.procedures[i]? = none)
    (hq : (m.apply e).procedures[i]? = some q) :
    i = m.procedures.length ∧ ∃ owner op s, q = .fresh owner op s ∧
      ((∃ r, e = .create r owner op s) ∨ e = .stray owner op s) := by
  have hi : m.procedures.length ≤ i := List.getElem?_eq_none_iff.1 hp
  have hadded : ∀ {fresh : Procedure}, (m.procedures ++ [fresh])[i]? = some q →
      i = m.procedures.length ∧ q = fresh := by
    intro fresh hfound
    have hlt := (List.getElem?_eq_some_iff.1 hfound).1
    rw [List.length_append, List.length_singleton] at hlt
    obtain rfl : i = m.procedures.length := Nat.le_antisymm (Nat.le_of_lt_succ hlt) hi
    simpa [eq_comm] using hfound
  have hnone : ∀ j (f : Procedure → Procedure), (m.procedures.modify j f)[i]? ≠ some q := by
    intro j f hfound
    have hlt := (List.getElem?_eq_some_iff.1 hfound).1
    rw [List.length_modify] at hlt
    omega
  cases e with
  | create r owner op s =>
      obtain ⟨hlast, rfl⟩ := hadded hq
      exact ⟨hlast, owner, op, s, rfl, .inl ⟨r, rfl⟩⟩
  | stray owner op s =>
      obtain ⟨hlast, rfl⟩ := hadded hq
      exact ⟨hlast, owner, op, s, rfl, .inr rfl⟩
  | procedure j change => exact absurd hq (hnone _ _)
  | vacate r owner op s =>
      rcases m.vacate_cases r owner op s with hm | ⟨j, _, hm⟩ <;> rw [hm] at hq
      · exact absurd (hp.symm.trans hq) (by simp)
      · exact absurd hq (hnone _ _)
  | _ => exact absurd (hp.symm.trans hq) (by simp)

/-! ### Slots -/

theorem registry_set {r r' : RegistryId} {slots : Registry} (hr : r < m.registries.length)
    {procedures : List Procedure} :
    Model.registry { m with procedures := procedures, registries := m.registries.set r slots } r' =
      if r = r' then slots else m.registry r' := by
  by_cases h : r = r'
  · subst h
    simp [registry, hr]
  · simp [registry, h]

theorem registry_eq_empty {r : RegistryId} (hr : m.registries.length ≤ r) :
    m.registry r = .empty := by
  simp [registry, List.getElem?_eq_none_iff.2 hr]

/-- One more registry, which is empty, is not seen in the others. -/
theorem registry_addRegistry (m : Model) (r : RegistryId) :
    m.addRegistry.2.registry r = m.registry r := by
  unfold registry addRegistry
  by_cases hr : r < m.registries.length
  · rw [List.getElem?_append_left hr]
  · rw [List.getElem?_eq_none_iff.2 (Nat.le_of_not_lt hr)]
    by_cases hlast : r = m.registries.length
    · simp [hlast]
    · rw [List.getElem?_eq_none_iff.2]
      rw [List.length_append, List.length_singleton]
      exact Nat.lt_of_le_of_ne (Nat.le_of_not_lt hr) (Ne.symm hlast)

theorem lt_of_declared {r : RegistryId} {owner : EntityRef} {op : Operation} {i : ProcedureId}
    (h : m.declared? r owner op = some i) : r < m.registries.length := by
  apply Nat.lt_of_not_le
  intro hr
  have hget := (declared?_eq_some h).2
  rw [registry_eq_empty hr] at hget
  cases hget

/-- A removal that finds a record leaves its slot empty. -/
theorem vacate_empties {r : RegistryId} {owner : EntityRef} {op : Operation} {s : Source}
    {i : ProcedureId} (h : m.declared? r owner op = some i) :
    ((m.apply (.vacate r owner op s)).registry r).get? ⟨owner.id, op⟩ = none := by
  rw [vacate_eq h, registry_set (lt_of_declared h), if_pos rfl, SortedMap.get?_erase, if_pos rfl]

/-- **A slot after a change** is as it was, or it is the slot that the change fills or empties. -/
theorem slot_apply (m : Model) (e : Change) (r : RegistryId) (slot : Slot) :
    ((m.apply e).registry r).get? slot = (m.registry r).get? slot ∨
      (∃ owner op s, e = .create r owner op s ∧ slot = ⟨owner.id, op⟩ ∧
        ((m.apply e).registry r).get? slot = some m.procedures.length) ∨
      ∃ owner op s, e = .vacate r owner op s ∧ slot = ⟨owner.id, op⟩ ∧
        ((m.apply e).registry r).get? slot = none := by
  cases e with
  | registry =>
      left
      rw [apply, registry_addRegistry]
  | create r' owner op s =>
      by_cases hr : r' < m.registries.length
      · rw [create_eq, registry_set hr]
        by_cases hsame : r' = r
        · subst hsame
          rw [if_pos rfl, SortedMap.get?_insert]
          by_cases hslot : slot = ⟨owner.id, op⟩
          · exact .inr (.inl ⟨owner, op, s, rfl, hslot, if_pos hslot⟩)
          · exact .inl (if_neg hslot)
        · rw [if_neg hsame]
          exact .inl rfl
      · left
        rw [create_eq, List.set_eq_of_length_le (Nat.le_of_not_lt hr)]
        rfl
  | vacate r' owner op s =>
      rcases m.vacate_cases r' owner op s with hm | ⟨i, hheld, hm⟩
      · exact .inl (by rw [hm])
      · rw [hm, registry_set (lt_of_declared hheld)]
        by_cases hsame : r' = r
        · subst hsame
          rw [if_pos rfl, SortedMap.get?_erase]
          by_cases hslot : slot = ⟨owner.id, op⟩
          · exact .inr (.inr ⟨owner, op, s, rfl, hslot, if_pos hslot⟩)
          · exact .inl (if_neg hslot)
        · rw [if_neg hsame]
          exact .inl rfl
  | _ => exact .inl rfl

end Model

/-! ## Workspaces -/

namespace Workspace

variable {w w' : Workspace} {c : Command} {ref : ProcedureRef}

/-- **A record after a command** is as it was, or as the change leaves it that acts on it. -/
theorem Effect.procedure_after {m : Model} {p : Procedure}
    (h : w.Effect c w') (hp : w.procedure? ref = some (m, p)) :
    ∃ m' p', w'.procedure? ref = some (m', p') ∧
      ((m' = m ∧ p' = p) ∨ ∃ e, c.Makes ref.model e ∧ m.Allows e ∧ m' = m.apply e ∧
        (p' = p ∨ ∃ change, m.Acts e ref.id change ∧ p' = p.apply change)) := by
  obtain ⟨hm, hget⟩ := procedure?_eq_some_iff.1 hp
  rcases h.model_after hm with hsame | ⟨e, hmakes, hallowed, hm'⟩
  · exact ⟨m, p, procedure?_eq_some_iff.2 ⟨hsame, hget⟩, .inl ⟨rfl, rfl⟩⟩
  · obtain ⟨q, hq, hacts⟩ := Model.procedure_apply hget e
    exact ⟨_, q, procedure?_eq_some_iff.2 ⟨hm', hq⟩, .inr ⟨e, hmakes, hallowed, rfl, hacts⟩⟩

/-- Records are never taken away. -/
theorem Effect.absent (h : w.Effect c w') (hp' : w'.procedure? ref = none) :
    w.procedure? ref = none := by
  cases hp : w.procedure? ref with
  | none => rfl
  | some found =>
      obtain ⟨m', p', hafter, _⟩ := h.procedure_after hp
      rw [hp'] at hafter
      cases hafter

theorem procedure_eq_none {p : ProcedureRef} {m : Model} (h : w.procedure? p = none)
    (hm : w.model? p.model = some m) : m.procedures[p.id]? = none := by
  cases hp : m.procedures[p.id]? with
  | none => rfl
  | some q =>
      rw [procedure?_eq_some_iff.2 ⟨hm, hp⟩] at h
      cases h

/-- A record after a command is fresh, or was there, as it is or up to one change. -/
theorem Effect.procedure_before {m' : Model} {p' : Procedure} (h : w.Effect c w')
    (hp' : w'.procedure? ref = some (m', p')) :
    (∃ m p, w.procedure? ref = some (m, p) ∧ ((m' = m ∧ p' = p) ∨
      ∃ e, c.Makes ref.model e ∧ m.Allows e ∧ m' = m.apply e ∧
        (p' = p ∨ ∃ change, m.Acts e ref.id change ∧ p' = p.apply change))) ∨
    w.procedure? ref = none ∧ ∃ m owner op s, p' = .fresh owner op s ∧
      w.model? ref.model = some m ∧ ref.id = m.procedures.length ∧
      ((∃ r, c.Makes ref.model (.create r owner op s)) ∨
        c.Makes ref.model (.stray owner op s)) := by
  cases hp : w.procedure? ref with
  | some found =>
      left
      obtain ⟨m, p⟩ := found
      obtain ⟨m'', p'', hafter, hsame⟩ := h.procedure_after hp
      have heq : (m'', p'') = (m', p') := Option.some.inj (hafter.symm.trans hp')
      cases heq
      exact ⟨m, p, rfl, hsame⟩
  | none =>
      right
      refine ⟨rfl, ?_⟩
      obtain ⟨hm', hget⟩ := procedure?_eq_some_iff.1 hp'
      rcases h.model_before hm' with ⟨config, _, rfl⟩ | ⟨m, hm, rfl | ⟨e, hmakes, _, rfl⟩⟩
      · simp [Model.new] at hget
      · rw [procedure_eq_none hp hm] at hget
        cases hget
      · obtain ⟨hlast, owner, op, s, hfresh, hmade⟩ :=
          Model.procedure_new (procedure_eq_none hp hm) hget
        refine ⟨m, owner, op, s, hfresh, hm, hlast, ?_⟩
        rcases hmade with ⟨r, rfl⟩ | rfl
        · exact .inl ⟨r, hmakes⟩
        · exact .inr hmakes

end Workspace

end ProcedureMapping
