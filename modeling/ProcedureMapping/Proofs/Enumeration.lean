import ProcedureMapping.Proofs.Reuse

/-!
# Listing a registry

The records of a registry are listed in two ways: in the order of its slots, or type by type, each
with the records that it has itself.  The one goes through the slots that are taken, the other asks
for all slots that the types of the model have.  They give the same, because the ids of the types
are their positions, and no other type has a slot.

Main statements:

* `Model.slots_ascend` — the slots of the types, one after another, ascend;
* `Model.flatMap_declaredFor` — asking type by type lists the registry;
* `Model.registered_ascend` — the order in which a registry is listed;
* `registry_enumerated` — both ways of listing the registries of a session.
-/

namespace ProcedureMapping

/-- The slot that a record is made for. -/
def Procedure.slot (p : Procedure) : Slot := ⟨p.owner.id, p.operation⟩

namespace Model

/-- The slots of the types of a model, by type and operation. -/
def slots (m : Model) : List Slot := m.refs.flatMap fun t => Operation.all.map fun op => ⟨t.id, op⟩

variable {m : Model} {r : RegistryId}

theorem mem_slots_iff {slot : Slot} : slot ∈ m.slots ↔ ∃ t ∈ m.refs, t.id = slot.owner := by
  obtain ⟨i, op⟩ := slot
  have hop : op ∈ Operation.all := by cases op <;> decide
  simp [slots, hop]

/-- **The slots of the types ascend**: the ids of the types do, and the operations of each. -/
theorem slots_ascend (m : Model) : m.slots.Pairwise Slot.Before := by
  have hids : m.refs.Pairwise fun t u => t.id < u.id := by
    rw [← List.pairwise_map (R := (· < ·)), map_id_refs]
    exact List.pairwise_lt_range
  rw [slots, List.pairwise_flatMap]
  refine ⟨?_, hids.imp ?_⟩
  · intro t _
    simp [Operation.all, Operation.index, Slot.Before]
  · intro t u hlt a ha b hb
    obtain ⟨_, _, rfl⟩ := List.mem_map.1 ha
    obtain ⟨_, _, rfl⟩ := List.mem_map.1 hb
    exact .inl hlt

/-- A model asks its registry for all slots of its types. -/
theorem flatMap_declaredFor_eq (m : Model) (r : RegistryId) :
    m.refs.flatMap (m.declaredFor r) = m.slots.filterMap (m.registry r).get? := by
  rw [slots, List.filterMap_flatMap]
  refine List.flatMap_congr fun t ht => ?_
  obtain ⟨_, _, hname⟩ := ref?_eq_some_iff.1 (mem_refs_iff.1 ht)
  have hmodel : t.model = m.id := by rw [← hname]
  rw [declaredFor, List.filterMap_map]
  exact List.filterMap_congr fun op _ => declared?_eq_get? hmodel

/-- **Asking type by type lists the registry**, if all taken slots belong to types of the model. -/
theorem flatMap_declaredFor
    (hslots : ∀ slot, ((m.registry r).get? slot).isSome = true → slot ∈ m.slots) :
    m.refs.flatMap (m.declaredFor r) = m.registered r := by
  have hascend : m.slots.Pairwise fun a b => compare a b = .lt :=
    m.slots_ascend.imp Slot.compare_slot_lt_iff.2
  rw [flatMap_declaredFor_eq, registered, ← SortedMap.filterMap_get? hascend hslots,
    List.map_filterMap]
  refine List.filterMap_congr fun slot _ => ?_
  cases (m.registry r).get? slot <;> rfl

/-- On a sound model the taken slots belong to its types. -/
theorem Sound.mem_slots (hm : m.Sound) {slot : Slot}
    (h : ((m.registry r).get? slot).isSome = true) : slot ∈ m.slots := by
  obtain ⟨i, hi⟩ := Option.isSome_iff_exists.1 h
  obtain ⟨p, hp, _, howner, _⟩ := hm.served r slot i hi
  exact mem_slots_iff.2 ⟨p.owner, mem_refs_iff.2 (hm.owned i p hp), howner⟩

/-- A slot holds a record that is made for it. -/
theorem Sound.slot_eq (hm : m.Sound) {slot : Slot} {i : ProcedureId}
    (h : (m.registry r).get? slot = some i) :
    ∃ p, m.procedures[i]? = some p ∧ p.slot = slot := by
  obtain ⟨p, hp, _, howner, hop⟩ := hm.served r slot i h
  refine ⟨p, hp, ?_⟩
  rw [Procedure.slot, howner, hop]

/-- What a registry lists is what its slots hold. -/
theorem mem_registered_iff {i : ProcedureId} :
    i ∈ m.registered r ↔ ∃ slot, (m.registry r).get? slot = some i := by
  simp only [registered, List.mem_map, Prod.exists, exists_eq_right, SortedMap.mem_toList_iff]

/-- Whether the record `i` is made for a slot before that of the record `j`. -/
def Precedes (m : Model) (i j : ProcedureId) : Prop :=
  ∃ p q, m.procedures[i]? = some p ∧ m.procedures[j]? = some q ∧ p.slot.Before q.slot

/-- **A registry is listed by type and operation.** -/
theorem registered_ascend (hm : m.Sound) (r : RegistryId) :
    (m.registered r).Pairwise m.Precedes := by
  rw [registered, List.pairwise_map]
  refine (m.registry r).sorted.imp_of_mem ?_
  intro e e' he he' hlt
  obtain ⟨p, hp, hslot⟩ := hm.slot_eq (SortedMap.mem_toList_iff.1 he)
  obtain ⟨q, hq, hslot'⟩ := hm.slot_eq (SortedMap.mem_toList_iff.1 he')
  refine ⟨p, q, hp, hq, ?_⟩
  rw [hslot, hslot']
  exact Slot.compare_slot_lt_iff.1 hlt

theorem not_precedes_self {i : ProcedureId} : ¬ m.Precedes i i := by
  rintro ⟨p, q, hp, hq, hbefore⟩
  obtain rfl : p = q := Option.some.inj (hp.symm.trans hq)
  rcases hbefore with hlt | ⟨_, hlt⟩ <;> exact Nat.lt_irrefl _ hlt

end Model

namespace Workspace

variable {w : Workspace} {steps : List Step} {i : ModelId} {m : Model}

/-- How the registry `r` of a model is listed: asking type by type gives the same list; it has the
record of each taken slot once, by type and operation; and its length is the number of records.
The types of other models have none. -/
structure Enumerated (m : Model) (r : RegistryId) : Prop where
  agree : m.refs.flatMap (m.declaredFor r) = m.registered r
  listed : ∀ slot i, (m.registry r).get? slot = some i ↔
    i ∈ m.registered r ∧ ∃ p, m.procedures[i]? = some p ∧ p.slot = slot
  once : (m.registered r).Nodup
  ascending : (m.registered r).Pairwise m.Precedes
  length : (m.registered r).length = (m.registry r).size
  empty : (m.registry r).isEmpty = true ↔ m.registered r = []
  foreign : ∀ t, t.model ≠ m.id → m.declaredFor r t = []

/-- **The two ways of listing a registry agree**, at any moment of any session. -/
theorem registry_enumerated (h : Session steps w) (hm : w.model? i = some m) (r : RegistryId) :
    Enumerated m r := by
  have hsound : m.Sound := Session.sound h i m hm
  have hascend := Model.registered_ascend hsound r
  refine
    { agree := Model.flatMap_declaredFor fun _ => hsound.mem_slots
      listed := ?_
      once := hascend.imp ?_
      ascending := hascend
      length := m.length_registered r
      empty := ?_
      foreign := ?_ }
  · intro slot i
    constructor
    · intro hget
      exact ⟨Model.mem_registered_iff.2 ⟨slot, hget⟩, hsound.slot_eq hget⟩
    · rintro ⟨hmem, p, hp, rfl⟩
      obtain ⟨slot, hget⟩ := Model.mem_registered_iff.1 hmem
      obtain ⟨q, hq, rfl⟩ := hsound.slot_eq hget
      obtain rfl : p = q := Option.some.inj (hp.symm.trans hq)
      exact hget
  · rintro i j hprecedes rfl
    exact Model.not_precedes_self hprecedes
  · rw [SortedMap.isEmpty, List.isEmpty_iff, Model.registered, List.map_eq_nil_iff]
  · intro t ht
    simp [Model.declaredFor, Model.declared?, ht]

/-- A registry whose slots have been taken in another order than they are listed in. -/
def interleaved : List Step × Workspace :=
  (carryOn (IsOpen []) [] .empty
    [.createModel .standard, .addType 0 "Animal" none, .addType 0 "Cat" (some ⟨0, 0, "Animal"⟩),
      .createRegistry 0, .set ⟨0, 0⟩ ⟨0, 1, "Cat"⟩ .delete, .set ⟨0, 0⟩ ⟨0, 1, "Cat"⟩ .insert,
      .set ⟨0, 0⟩ ⟨0, 0, "Animal"⟩ .update]).get rfl

theorem registry_enumerated_interleaved :
    Session interleaved.1 interleaved.2 ∧ ∃ m, interleaved.2.model? 0 = some m ∧
      Enumerated m 0 ∧ m.registered 0 = [2, 1, 0] := by
  have hsession : Session interleaved.1 interleaved.2 :=
    Run.carryOn .nil (Option.some_get rfl).symm
  have hm : interleaved.2.model? 0 = some _ := rfl
  exact ⟨hsession, _, hm, registry_enumerated hsession hm 0, rfl⟩

end Workspace

end ProcedureMapping
