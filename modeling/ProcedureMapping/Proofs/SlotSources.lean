import ProcedureMapping.Proofs.Hierarchy
import ProcedureMapping.Proofs.Slots

/-!
# The sources of slots

What a registry knows of a slot is the source of the record in it.  A call on a slot raises its
source, or fills it, or empties it, and leaves every other slot alone.

An explicit call takes the slot of its owner.  A convention takes the slot of its owner where it is
taken already, else the slot of the root where that is taken, else again the slot of its owner.

Main statements:

* `lookup?_eq_get?` — look-up finds what is in the slot that a convention takes;
* `reuseOrCreate_slotSource?`, `slotSource?_vacate`, `slotSource?_quiet` — what changes do to the
  sources of slots;
* `Early.before` — an open model keeps what it says about the hierarchy.
-/

namespace ProcedureMapping

/-! ## Slots of a model -/

namespace Model

/-- The source of the record in a slot. -/
def slotSource? (m : Model) (r : RegistryId) (slot : Slot) : Option Source :=
  (((m.registry r).get? slot).bind (m.procedures[·]?)).map Procedure.source

/-- Which slots of a registry are taken. -/
def taken (m : Model) (r : RegistryId) (slot : Slot) : Bool := ((m.registry r).get? slot).isSome

/-- The slot that a convention on a type takes, along the hierarchy of `h`. -/
def slotFor (h : Model) (taken : Slot → Bool) (owner : EntityRef) (op : Operation) : Slot :=
  if taken ⟨owner.id, op⟩ then ⟨owner.id, op⟩
  else
    match h.base? owner with
    | some _ =>
        if taken ⟨(h.root owner).id, op⟩ then ⟨(h.root owner).id, op⟩ else ⟨owner.id, op⟩
    | none => ⟨owner.id, op⟩

variable {m m' n : Model} {r r' : RegistryId} {owner : EntityRef} {op : Operation} {slot : Slot}
  {s : Source} {i : ProcedureId}

theorem declaredSource?_eq (howner : owner.model = m.id) :
    m.declaredSource? r owner op = m.slotSource? r ⟨owner.id, op⟩ := by
  rw [declaredSource?, slotSource?, declared?_eq_get? howner]

/-- A slot has a source exactly when it is taken. -/
theorem slotSource?_isSome (hm : m.Sound) (r : RegistryId) (slot : Slot) :
    (m.slotSource? r slot).isSome = m.taken r slot := by
  unfold slotSource? taken
  cases hget : (m.registry r).get? slot with
  | none => rfl
  | some i =>
      obtain ⟨p, hp, _⟩ := hm.served r slot i hget
      simp [hp]

theorem slotFor_of_base?_eq_none (taken : Slot → Bool) (op : Operation)
    (h : m.base? owner = none) : m.slotFor taken owner op = ⟨owner.id, op⟩ := by
  simp [slotFor, h]

/-- A convention makes a record in the slot of its owner only. -/
theorem slotFor_of_not_taken {taken : Slot → Bool}
    (h : taken (m.slotFor taken owner op) = false) :
    m.slotFor taken owner op = ⟨owner.id, op⟩ := by
  unfold slotFor at h ⊢
  split
  · rfl
  · next hown =>
      rw [if_neg hown] at h
      split
      · next hbase =>
          rw [hbase] at h
          split
          · next hroot =>
              simp only [hroot, if_true] at h
              cases h
          · rfl
      · rfl

theorem slotFor_congr (taken : Slot → Bool) (op : Operation)
    (hbase : n.base? owner = m.base? owner) (hroot : n.root owner = m.root owner) :
    n.slotFor taken owner op = m.slotFor taken owner op := by
  rw [slotFor, slotFor, hbase, hroot]

/-- **Look-up** finds what is in the slot that a convention takes. -/
theorem lookup?_eq_get? (h : Model) (op : Operation) (howner : owner.model = m.id) :
    m.lookup? r h owner op = (m.registry r).get? (h.slotFor (m.taken r) owner op) := by
  simp only [lookup?, howner, if_true, slotFor, taken]
  rcases Option.eq_none_or_eq_some ((m.registry r).get? ⟨owner.id, op⟩) with hown | ⟨i, hown⟩
  · cases hbase : h.base? owner with
    | none => simp [hown]
    | some b =>
        rcases Option.eq_none_or_eq_some ((m.registry r).get? ⟨(h.root owner).id, op⟩) with
          hroot | ⟨i, hroot⟩
        · simp [hown, hroot]
        · simp [hown, hroot]
  · simp [hown]

/-! ## What changes do to the sources of slots -/

/-- Whether a change leaves every slot and every source alone. -/
def Change.isQuiet : Change → Bool
  | create .. | vacate .. | stray .. | procedure _ (.raise _) => false
  | _ => true

theorem slotSource?_procedure {change : Procedure.Change} (hraise : ∀ s, change ≠ .raise s) :
    (m.apply (.procedure i change)).slotSource? r slot = m.slotSource? r slot := by
  have hregistry : (m.apply (.procedure i change)).registry r = m.registry r := rfl
  unfold slotSource?
  rw [hregistry]
  cases hget : (m.registry r).get? slot with
  | none => rfl
  | some j =>
      cases hp : m.procedures[j]? with
      | none => simp [apply, List.getElem?_modify, hp]
      | some p =>
          by_cases hij : i = j
          · have hsource : (p.apply change).source = p.source := by
              rcases p.source_apply change with hsame | ⟨s, hs, _⟩
              · exact hsame
              · exact absurd hs (hraise s)
            simp [apply, hij, hp, hsource]
          · simp [apply, hij, hp]

theorem slotSource?_quiet {e : Change} (hquiet : e.isQuiet = true) :
    (m.apply e).slotSource? r slot = m.slotSource? r slot := by
  cases e with
  | create | vacate | stray => cases hquiet
  | registry =>
      unfold slotSource?
      rw [apply, registry_addRegistry]
      rfl
  | procedure i change =>
      apply slotSource?_procedure
      rintro s rfl
      cases hquiet
  | _ => rfl

theorem slotSource?_raise :
    (m.apply (.procedure i (.raise s))).slotSource? r slot =
      if (m.registry r).get? slot = some i then (m.slotSource? r slot).map fun t => s.max (some t)
      else m.slotSource? r slot := by
  have hregistry : (m.apply (.procedure i (.raise s))).registry r = m.registry r := rfl
  unfold slotSource?
  rw [hregistry]
  cases hget : (m.registry r).get? slot with
  | none => simp
  | some j =>
      by_cases hij : i = j
      · subst hij
        cases hp : m.procedures[i]? with
        | none => simp [apply, hp]
        | some p => simp [apply, hp, Procedure.apply, Procedure.raiseSource]
      · simp [apply, hij, Ne.symm hij]

theorem slotSource?_create (hm : m.Sound) (hr : r' < m.registries.length) :
    (m.apply (.create r' owner op s)).slotSource? r slot =
      if r = r' ∧ slot = ⟨owner.id, op⟩ then some s else m.slotSource? r slot := by
  -- What a slot holds was there before the new record.
  have hold : ∀ j, (m.registry r).get? slot = some j →
      (m.procedures ++ [.fresh owner op s])[j]? = m.procedures[j]? := by
    intro j hget
    obtain ⟨p, hp, _⟩ := hm.served r slot j hget
    exact List.getElem?_append_left (List.getElem?_eq_some_iff.1 hp).1
  have hsame : ((m.registry r).get? slot).bind ((m.procedures ++ [.fresh owner op s])[·]?) =
      ((m.registry r).get? slot).bind (m.procedures[·]?) := by
    cases hget : (m.registry r).get? slot with
    | none => rfl
    | some j => exact hold j hget
  unfold slotSource?
  rw [create_eq, registry_set hr]
  by_cases hreg : r' = r
  · subst hreg
    rw [if_pos rfl, SortedMap.get?_insert]
    by_cases hslot : slot = ⟨owner.id, op⟩
    · rw [if_pos hslot, if_pos ⟨rfl, hslot⟩, Option.bind_some, List.getElem?_concat_length]
      rfl
    · rw [if_neg hslot, if_neg (fun h => hslot h.2), hsame]
  · rw [if_neg hreg, if_neg (fun h => hreg h.1.symm), hsame]

/-- A removal empties the slot of its owner, and no other. -/
theorem slotSource?_vacate (howner : owner.model = m.id) :
    (m.apply (.vacate r' owner op s)).slotSource? r slot =
      if r = r' ∧ slot = ⟨owner.id, op⟩ then none else m.slotSource? r slot := by
  rcases m.vacate_cases r' owner op s with hm | ⟨i, hheld, hm⟩
  · rw [hm]
    split
    · next h =>
        obtain ⟨rfl, rfl⟩ := h
        cases hheld : m.declared? r owner op with
        | none =>
            have hnone := (declared?_eq_get? howner).symm.trans hheld
            rw [slotSource?, hnone]
            rfl
        | some i =>
            have hempty := vacate_empties (s := s) hheld
            rw [hm] at hempty
            rw [slotSource?, hempty]
            rfl
    · rfl
  · have hsource : ∀ j : ProcedureId,
        ((m.procedures.modify i Procedure.detach)[j]?).map Procedure.source =
          (m.procedures[j]?).map Procedure.source := by
      intro j
      rw [List.getElem?_modify]
      cases m.procedures[j]? with
      | none => rfl
      | some p => by_cases hij : i = j <;> simp [hij, Procedure.detach]
    have hsame : (((m.registry r).get? slot).bind
        ((m.procedures.modify i Procedure.detach)[·]?)).map Procedure.source =
          m.slotSource? r slot := by
      rw [slotSource?, Option.map_bind, Option.map_bind]
      congr 1
      funext j
      exact hsource j
    rw [hm, slotSource?, registry_set (lt_of_declared hheld)]
    by_cases hreg : r' = r
    · subst hreg
      rw [if_pos rfl, SortedMap.get?_erase]
      by_cases hslot : slot = ⟨owner.id, op⟩
      · rw [if_pos hslot, if_pos ⟨rfl, hslot⟩]
        rfl
      · rw [if_neg hslot, if_neg (fun h => hslot h.2), hsame]
    · rw [if_neg hreg, if_neg (fun h => hreg h.1.symm), hsame]

/-- **What a contribution does to the sources of slots**: in the slot that it takes, the source is
raised to its own, or it is its own where the slot was empty. -/
theorem reuseOrCreate_slotSource? {target : Slot} (hm : m.Sound)
    (hr : r < m.registries.length)
    (hown : (m.registry r).get? target = none → target = ⟨owner.id, op⟩)
    (h : m.reuseOrCreate r ((m.registry r).get? target) owner op s = .ok (i, m'))
    (r' : RegistryId) (slot : Slot) :
    m'.slotSource? r' slot =
      if r' = r ∧ slot = target then some (s.max (m.slotSource? r target))
      else m.slotSource? r' slot := by
  cases hget : (m.registry r).get? target with
  | none =>
      rw [hget] at h
      rcases reuseOrCreate_eq_ok h with hi | ⟨_, rfl⟩
      · cases hi
      · have hempty : m.slotSource? r target = none := by rw [slotSource?, hget]; rfl
        rw [slotSource?_create hm hr, hempty, ← hown hget]
        rfl
  | some j =>
      obtain ⟨p, hp, _⟩ := hm.served r target j hget
      rw [hget] at h
      obtain ⟨n, hn, heq⟩ := map_eq_ok_iff.1 h
      cases heq
      simp only [restamp, hp] at hn
      obtain ⟨q, hq, hset⟩ := map_eq_ok_iff.1 hn
      obtain ⟨_, rfl⟩ := Procedure.restamp_eq_ok hq
      rw [← hset, setProcedure_apply hp, slotSource?_raise]
      have hsource : m.slotSource? r target = some p.source := by
        rw [slotSource?, hget, Option.bind_some, hp]
        rfl
      by_cases hslot : (m.registry r').get? slot = some i
      · -- The record sits in one slot only.
        obtain ⟨rfl, rfl⟩ := hm.slot_unique hslot hget
        rw [if_pos hslot, if_pos ⟨rfl, rfl⟩, hsource]
        rfl
      · have hother : ¬ (r' = r ∧ slot = target) := by
          rintro ⟨rfl, rfl⟩
          exact hslot hget
        rw [if_neg hslot, if_neg hother]

/-! ## Earlier states -/

/-- Whether a model is an earlier state of `m`, and open.  The types that it has keep their
bases. -/
structure Early (n m : Model) : Prop where
  id : n.id = m.id
  isOpen : n.settings.readOnly = false
  base? : ∀ t, n.ref? t.id = some t → n.base? t = m.base? t
  root : ∀ t, n.ref? t.id = some t → n.root t = m.root t

theorem early_refl (hopen : m.settings.readOnly = false) : m.Early m where
  id := rfl
  isOpen := hopen
  base? _ _ := rfl
  root _ _ := rfl

/-- What a model was before a change is earlier still. -/
theorem Early.before {e : Change} (hn : n.Founded) (hallowed : n.Allows e)
    (h : (n.apply e).Early m) : n.Early m where
  id := by rw [← h.id, id_apply]
  isOpen := by
    rw [Bool.eq_false_iff]
    intro hfinal
    have hstill := readOnly_apply (e := e) hfinal
    rw [h.isOpen] at hstill
    cases hstill
  base? t ht := by rw [← h.base? t (ref?_apply hallowed ht), hn.base?_apply hallowed ht]
  root t ht := by rw [← h.root t (ref?_apply hallowed ht), hn.root_apply hallowed ht]

end Model

end ProcedureMapping
