import ProcedureMapping.Proofs.Commutation
import ProcedureMapping.Proofs.Independence
import ProcedureMapping.Proofs.Lookup

/-!
# Handing out records

A registry answers a call for a type with the record that it has found, whose source it raises, or
else with one more record, in the slot of the type itself.  An explicit call looks into that slot
only; a convention takes whatever look-up finds, by way of the root if need be.

Either way look-up finds the answer afterwards.  The only slot that changes was empty, so whatever
look-up has found before it still finds, but for the one type that now has a record of its own.

Main statements:

* `find?_of_taken` — filling empty slots keeps what look-up finds;
* `handout_of_raise`, `handout_of_create` — the two ways of handing out a record;
* `handout_set`, `handout_setConvention` — what a call hands out, and what it leaves alone;
* `create_or_reuse` — explicit calls and conventions in a session.
-/

namespace ProcedureMapping

namespace Model

theorem length_registered (m : Model) (r : RegistryId) :
    (m.registered r).length = (m.registry r).size := by
  rw [registered, List.length_map, SortedMap.size]

end Model

namespace Workspace

/-- The records of a registry, by owner and operation. -/
def registered (w : Workspace) (reg : RegistryRef) : List ProcedureRef :=
  ((w.model? reg.model).map fun m =>
    (m.registered reg.id).map fun i => ⟨reg.model, i⟩).getD []

/-- Whether every model has the types and the settings that it had. -/
def AllAlike (w w' : Workspace) : Prop :=
  ∀ i m, w.model? i = some m → ∃ m', w'.model? i = some m' ∧ m'.Alike m

variable {w w' : Workspace} {reg reg' : RegistryRef} {k : ModelId} {m : Model}
  {owner t : EntityRef} {op : Operation} {s : Source} {i : ProcedureId} {p : ProcedureRef}
  {old : Procedure} {steps : List Step}

theorem registered_length (hm : w.model? reg.model = some m) :
    (w.registered reg).length = (m.registry reg.id).size := by
  rw [registered, hm, Option.map_some, Option.getD_some, List.length_map, m.length_registered]

theorem model?_modifyModel (w : Workspace) (i : ModelId) (change : Model → Model) (j : ModelId) :
    (w.modifyModel i change).model? j =
      (w.model? j).map fun m => if i = j then change m else m := by
  rw [model?, model?, modifyModel, List.getElem?_modify]
  rfl

/-- A change that keeps the types and the settings of its model. -/
theorem allAlike_modifyModel {change : Model → Model} (h : ∀ m, (change m).Alike m)
    (w : Workspace) (i : ModelId) : w.AllAlike (w.modifyModel i change) := by
  intro j m hm
  rw [model?_modifyModel, hm]
  by_cases hi : i = j
  · exact ⟨_, rfl, by simpa only [if_pos hi] using h m⟩
  · exact ⟨_, rfl, by simpa only [if_neg hi] using m.alike_refl⟩

theorem numbered_modifyModel {change : Model → Model} (h : ∀ m, (change m).Alike m)
    (hw : w.Numbered) (i : ModelId) : (w.modifyModel i change).Numbered := by
  intro j n hn
  rw [model?_modifyModel] at hn
  obtain ⟨m, hm, rfl⟩ := Option.map_eq_some_iff.1 hn
  by_cases hi : i = j
  · rw [if_pos hi, (h m).id, hw j m hm]
  · rw [if_neg hi, hw j m hm]

/-! ## Slots that stay taken -/

theorem models_of_find? (h : w.find? reg k t op = some p) :
    (w.model? reg.model).isSome = true ∧ (w.model? k).isSome = true := by
  obtain ⟨m, hm, hlookup⟩ := Option.bind_eq_some_iff.1 h
  obtain ⟨hier, hhier, _⟩ := Option.bind_eq_some_iff.1 hlookup
  exact ⟨by rw [hm]; rfl, by rw [hhier]; rfl⟩

/-- A registry finds nothing for the types of other models. -/
theorem model_of_find? (hw : w.Numbered) (h : w.find? reg k t op = some p) :
    t.model = reg.model := by
  obtain ⟨hreg, hk⟩ := models_of_find? h
  obtain ⟨m, hm⟩ := Option.isSome_iff_exists.1 hreg
  exact (slot?_of_find? hw hm hk h).1

/-- **Filling empty slots keeps what look-up finds**, unless it is the slot of the type itself that
is filled. -/
theorem find?_of_taken (hw : w.Numbered) (hw' : w'.Numbered) (halike : w.AllAlike w')
    (htaken : ∀ slot q, w.slot? reg slot = some q → w'.slot? reg slot = some q)
    (hown : w.slot? reg ⟨t.id, op⟩ = none → w'.slot? reg ⟨t.id, op⟩ = none)
    (h : w.find? reg k t op = some p) : w'.find? reg k t op = some p := by
  obtain ⟨hreg, hk⟩ := models_of_find? h
  obtain ⟨m, hm⟩ := Option.isSome_iff_exists.1 hreg
  obtain ⟨hier, hhier⟩ := Option.isSome_iff_exists.1 hk
  obtain ⟨m', hm', hsame⟩ := halike _ m hm
  obtain ⟨hier', hhier', _⟩ := halike _ hier hhier
  have hk' : (w'.model? k).isSome = true := by rw [hhier']; rfl
  rw [find?_eq hw hm hk] at h
  rw [find?_eq hw' hm' hk', hsame.base?, hsame.root]
  split at h
  · next hmodel =>
      rw [if_pos hmodel]
      rcases Option.or_eq_some_iff.1 h with hfound | ⟨hempty, htop⟩
      · rw [htaken _ p hfound, Option.some_or]
      · rw [hown hempty, Option.none_or]
        split at htop
        · next hsees => rw [if_pos hsees, htaken _ p htop]
        · cases htop
  · cases h

/-- A type with a record of its own is served by it. -/
theorem find?_of_own (hw : w.Numbered) (hm : w.model? reg.model = some m)
    (hk : (w.model? k).isSome = true) (howner : owner.model = reg.model)
    (hown : w.slot? reg ⟨owner.id, op⟩ = some p) : w.find? reg k owner op = some p := by
  rw [find?_eq hw hm hk, if_pos howner, hown, Option.some_or]

/-! ## The record that is found, and the record that is made -/

theorem alike_setProcedure (i : ProcedureId) (q : Procedure) (m : Model) :
    (m.setProcedure i q).Alike m := ⟨rfl, rfl, rfl⟩

/-- Another state of a record is no matter of the slots. -/
theorem slot?_setRecord (w : Workspace) (ref : ProcedureRef) (q : Procedure) (reg : RegistryRef)
    (slot : Slot) : (w.setRecord ref q).slot? reg slot = w.slot? reg slot := by
  have hmodel := model?_modifyModel w ref.model (·.setProcedure ref.id q) reg.model
  unfold slot?
  rw [setRecord, ← modifyModel, hmodel]
  cases w.model? reg.model with
  | none => rfl
  | some m =>
      rw [Option.map_some, Option.bind_some]
      split <;> rfl

theorem registered_setRecord (w : Workspace) (ref : ProcedureRef) (q : Procedure)
    (reg : RegistryRef) : (w.setRecord ref q).registered reg = w.registered reg := by
  have hmodel := model?_modifyModel w ref.model (·.setProcedure ref.id q) reg.model
  unfold registered
  rw [setRecord, ← modifyModel, hmodel]
  cases w.model? reg.model with
  | none => rfl
  | some m =>
      rw [Option.map_some, Option.map_some, Option.map_some]
      split <;> rfl

/-- The workspace with one more record, in the slot of its owner. -/
def addRecord (w : Workspace) (reg : RegistryRef) (owner : EntityRef) (op : Operation)
    (s : Source) : Workspace :=
  w.modifyModel reg.model (·.apply (.create reg.id owner op s))

theorem alike_create (r : RegistryId) (owner : EntityRef) (op : Operation) (s : Source)
    (m : Model) : (m.apply (.create r owner op s)).Alike m := ⟨rfl, rfl, rfl⟩

/-- A record that is made is in its slot, and no other slot is touched. -/
theorem slot?_create (hm : w.model? reg.model = some m) (hr : reg.id < m.registries.length)
    (owner : EntityRef) (op : Operation) (s : Source) (reg' : RegistryRef) (slot : Slot) :
    (w.addRecord reg owner op s).slot? reg' slot =
      if reg' = reg ∧ slot = ⟨owner.id, op⟩ then some ⟨reg.model, m.procedures.length⟩
      else w.slot? reg' slot := by
  obtain ⟨i, r⟩ := reg
  obtain ⟨i', r'⟩ := reg'
  rw [slot?, addRecord, modifyModel_eq hm, model?_setModel hm]
  dsimp only at hm hr ⊢
  by_cases hi : i = i'
  · subst hi
    have hbefore : w.slot? ⟨i, r'⟩ slot = ((m.registry r').get? slot).map fun j => ⟨i, j⟩ := by
      rw [slot?, hm, Option.bind_some]
    rw [if_pos rfl, Option.bind_some, Model.create_eq, Model.registry_set hr, hbefore]
    by_cases hsame : r = r'
    · subst hsame
      rw [if_pos rfl, SortedMap.get?_insert]
      by_cases hslot : slot = ⟨owner.id, op⟩
      · simp [hslot]
      · simp [hslot]
    · simp [hsame, Ne.symm hsame]
  · simp [hi, Ne.symm hi, slot?]

/-- A record that is made is the next one of its model, and no other record is touched. -/
theorem record?_create (hm : w.model? reg.model = some m) (owner : EntityRef) (op : Operation)
    (s : Source) (ref : ProcedureRef) :
    (w.addRecord reg owner op s).record? ref =
      if ref = ⟨reg.model, m.procedures.length⟩ then some (m.settings, .fresh owner op s)
      else w.record? ref := by
  obtain ⟨j, i⟩ := ref
  rw [addRecord, modifyModel_eq hm]
  simp only [record?, procedure?, model?_setModel hm, ProcedureRef.mk.injEq]
  by_cases hj : reg.model = j
  · subst hj
    rw [if_pos rfl, hm, Model.create_eq]
    dsimp only
    by_cases hi : i = m.procedures.length
    · subst hi
      simp
    · have hkept : (m.procedures ++ [Procedure.fresh owner op s])[i]? = m.procedures[i]? := by
        rcases Nat.lt_or_gt_of_ne hi with hlt | hgt
        · exact List.getElem?_append_left hlt
        · have hlast : (m.procedures ++ [Procedure.fresh owner op s]).length ≤ i := by
            rw [List.length_append]
            exact hgt
          rw [List.getElem?_eq_none (Nat.le_of_lt hgt), List.getElem?_eq_none hlast]
      rw [hkept]
      simp [hi, Option.map_map, Function.comp_def]
  · simp [hj, Ne.symm hj]

/-! ## Handing out -/

/-- What a registry hands out for a type: the record `p` is the one that was found, with its source
raised, or else nothing of it is configured and it is in the slot of the type.  All else stays, and
look-up finds the record. -/
structure Handout (w : Workspace) (reg : RegistryRef) (owner : EntityRef) (op : Operation)
    (s : Source) (found : Option ProcedureRef) (w' : Workspace) (p : ProcedureRef) : Prop where
  reused : ∀ q, found = some q → p = q ∧ ∃ settings old, w.record? q = some (settings, old) ∧
    w'.record? q = some (settings, { old with source := s.max (some old.source) })
  fresh : found = none → w.record? p = none ∧
    (∃ settings made, w'.record? p = some (settings, made) ∧ made = .fresh owner op s ∧
      made.Unconfigured owner op s) ∧
    w.slot? reg ⟨owner.id, op⟩ = none ∧ w'.slot? reg ⟨owner.id, op⟩ = some p
  served : w'.find? reg reg.model owner op = some p
  size : (w'.registered reg).length =
    (w.registered reg).length + if found = none then 1 else 0
  records : ∀ q, q ≠ p → w'.record? q = w.record? q
  slots : ∀ reg' slot, (found = none → ¬ (reg' = reg ∧ slot = ⟨owner.id, op⟩)) →
    w'.slot? reg' slot = w.slot? reg' slot
  alike : w.AllAlike w'
  finds : ∀ reg' k t op' q, w.Holds t → w.find? reg' k t op' = some q →
    (found = none → ¬ (reg' = reg ∧ t = owner ∧ op' = op)) → w'.find? reg' k t op' = some q

/-- What is handed out is at least as strong as the call. -/
theorem Handout.source {found : Option ProcedureRef} (h : Handout w reg owner op s found w' p) :
    ∃ settings q, w'.record? p = some (settings, q) ∧ s ≤ q.source := by
  cases found with
  | none =>
      obtain ⟨_, ⟨settings, _, hp, rfl, _⟩, _⟩ := h.fresh rfl
      exact ⟨settings, _, hp, Source.le_refl s⟩
  | some q =>
      obtain ⟨rfl, settings, old, _, hp⟩ := h.reused q rfl
      exact ⟨settings, _, hp, Source.le_max_left s (some old.source)⟩

section Handout

variable {settings : ModelSettings}

/-- **A record that was found** is handed out with its source raised. -/
theorem handout_of_raise (hw : w.Numbered) (hp : w.record? p = some (settings, old))
    (hfound : w.find? reg reg.model owner op = some p) (s : Source) :
    Handout w reg owner op s (some p) (w.setRecord p (old.raiseSource s)) p := by
  have hw' : (w.setRecord p (old.raiseSource s)).Numbered :=
    numbered_modifyModel (alike_setProcedure _ _) hw p.model
  have halike : w.AllAlike (w.setRecord p (old.raiseSource s)) :=
    allAlike_modifyModel (alike_setProcedure _ _) w p.model
  have hslot := w.slot?_setRecord p (old.raiseSource s)
  have hrecord := w.record?_setRecord p (old.raiseSource s)
  have hfinds : ∀ reg' k t op' q, w.find? reg' k t op' = some q →
      (w.setRecord p (old.raiseSource s)).find? reg' k t op' = some q := by
    intro reg' k t op' q
    refine find?_of_taken hw hw' halike ?_ ?_
    · intro slot q hq
      rw [hslot, hq]
    · intro hempty
      rw [hslot, hempty]
  refine
    { reused := ?_, fresh := nofun, served := hfinds _ _ _ _ _ hfound, size := ?_, records := ?_,
      slots := fun reg' slot _ => hslot reg' slot, alike := halike,
      finds := fun reg' k t op' q _ hq _ => hfinds reg' k t op' q hq }
  · rintro q ⟨⟩
    refine ⟨rfl, settings, old, hp, ?_⟩
    rw [hrecord, if_pos rfl, hp]
    rfl
  · rw [registered_setRecord]
    rfl
  · intro q hq
    rw [hrecord, if_neg hq]

/-- **A record that is made** takes the empty slot of the type. -/
theorem handout_of_create (hw : w.Numbered) (hm : w.model? reg.model = some m)
    (hr : reg.id < m.registries.length) (howner : m.ref? owner.id = some owner)
    (hempty : w.slot? reg ⟨owner.id, op⟩ = none) (s : Source) :
    Handout w reg owner op s none (w.addRecord reg owner op s)
      ⟨reg.model, m.procedures.length⟩ := by
  have hmodel : owner.model = reg.model := by
    obtain ⟨_, _, heq⟩ := Model.ref?_eq_some_iff.1 howner
    rw [← heq, hw _ m hm]
  have hm' : (w.addRecord reg owner op s).model? reg.model =
      some (m.apply (.create reg.id owner op s)) := by
    rw [addRecord, model?_modifyModel, hm, Option.map_some, if_pos rfl]
  have hw' : (w.addRecord reg owner op s).Numbered :=
    numbered_modifyModel (alike_create _ _ _ _) hw reg.model
  have halike : w.AllAlike (w.addRecord reg owner op s) :=
    allAlike_modifyModel (alike_create _ _ _ _) w reg.model
  have hslot := slot?_create hm hr owner op s
  have hrecord := record?_create hm owner op s
  have hfilled : (w.addRecord reg owner op s).slot? reg ⟨owner.id, op⟩ =
      some ⟨reg.model, m.procedures.length⟩ := by
    rw [hslot, if_pos ⟨rfl, rfl⟩]
  refine
    { reused := nofun, fresh := ?_, served := ?_, size := ?_, records := ?_, slots := ?_,
      alike := halike, finds := ?_ }
  · intro _
    have hnew : w.record? ⟨reg.model, m.procedures.length⟩ = none := by
      simp [record?, procedure?, hm]
    have hmade : (w.addRecord reg owner op s).record? ⟨reg.model, m.procedures.length⟩ =
        some (m.settings, .fresh owner op s) := by
      rw [hrecord, if_pos rfl]
    exact ⟨hnew, ⟨m.settings, _, hmade, rfl, Procedure.unconfigured_fresh owner op s⟩, hempty,
      hfilled⟩
  · exact find?_of_own hw' hm' (by rw [hm']; rfl) hmodel hfilled
  · have hget : (m.registry reg.id).get? ⟨owner.id, op⟩ = none := by
      rw [slot?_eq hm, Option.map_eq_none_iff] at hempty
      exact hempty
    rw [registered_length hm, registered_length hm', Model.create_eq, Model.registry_set hr,
      if_pos rfl, SortedMap.size_insert, hget]
    rfl
  · intro q hq
    rw [hrecord, if_neg hq]
  · intro reg' slot hother
    rw [hslot, if_neg (hother rfl)]
  · intro reg' k t op' q ht hfound hother
    refine find?_of_taken hw hw' halike ?_ ?_ hfound
    · intro slot q hq
      rw [hslot, if_neg, hq]
      rintro ⟨rfl, rfl⟩
      rw [hempty] at hq
      cases hq
    · intro hown
      rw [hslot, if_neg, hown]
      rintro ⟨rfl, hsame⟩
      -- Two types of one model with the same id are the same type.
      obtain ⟨hid, hop⟩ := Slot.mk.inj hsame
      obtain ⟨n, hn, href⟩ := ht
      rw [model_of_find? hw hfound, hm] at hn
      cases hn
      exact hother rfl ⟨rfl, Model.eq_of_id_eq href howner hid, hop⟩

end Handout

/-- Where a convention is handed a record, look-up keeps everything that it has found: what it takes
an empty slot for had not been found along any hierarchy. -/
theorem Handout.finds_all (h : Handout w reg owner op s (w.find? reg reg.model owner op) w' p)
    (hw : w.Numbered) (hm : w.model? reg.model = some m) {op' : Operation} {q : ProcedureRef}
    (ht : w.Holds t) (hq : w.find? reg' k t op' = some q) : w'.find? reg' k t op' = some q := by
  refine h.finds reg' k t op' q ht hq ?_
  rintro hnone ⟨rfl, rfl, rfl⟩
  rcases slot?_of_find? hw hm (models_of_find? hq).2 hq with ⟨_, hown | ⟨rfl, _⟩⟩
  · obtain ⟨_, _, hempty, _⟩ := h.fresh hnone
    rw [hempty] at hown
    cases hown
  · rw [hnone] at hq
    cases hq

/-! ## Calls -/

section Calls

variable (hw : w.Numbered) (hm : w.model? reg.model = some m) (hsound : m.Sound)
  (hfree : m.settings.readOnly = false) (hr : reg.id < m.registries.length)
  (howner : m.ref? owner.id = some owner)

include hw hm hsound hfree hr howner

/-- **What a call hands out**: the record that was found, or else one that is made. -/
theorem handout_reuseOrCreate (op : Operation) (found : Option ProcedureId)
    (hfound : ∀ i, found = some i → (∃ slot, (m.registry reg.id).get? slot = some i) ∧
      w.find? reg reg.model owner op = some ⟨reg.model, i⟩)
    (hnone : found = none → w.slot? reg ⟨owner.id, op⟩ = none) (s : Source) :
    ∃ i m', m.reuseOrCreate reg.id found owner op s = .ok (i, m') ∧
      Handout w reg owner op s (found.map fun i => ⟨reg.model, i⟩) (w.setModel reg.model m')
        ⟨reg.model, i⟩ := by
  cases found with
  | none =>
      have h := handout_of_create hw hm hr howner (hnone rfl) s
      rw [addRecord, modifyModel_eq hm] at h
      exact ⟨_, _, rfl, h⟩
  | some i =>
      obtain ⟨⟨slot, hslot⟩, hserved⟩ := hfound i rfl
      obtain ⟨old, hold, hreuse⟩ := Model.reuseOrCreate_some hsound hslot hfree owner op s
      have hp : w.record? ⟨reg.model, i⟩ = some (m.settings, old) := by
        rw [record?, procedure?_eq_some_iff.2 ⟨hm, hold⟩, Option.map_some]
      have h := handout_of_raise hw hp hserved s
      rw [setRecord_eq hm] at h
      exact ⟨i, _, hreuse, h⟩

/-- An explicit call goes by the slot of the type. -/
theorem handout_set (hmodel : owner.model = m.id)
    (hcheck : m.ensureRegistrable owner op = .ok ()) : ∃ w' p,
      w.execute (.set reg owner op) = some (w', .ok (.procedure (some p))) ∧
        Handout w reg owner op .explicit (w.slot? reg ⟨owner.id, op⟩) w' p := by
  have hslot := slot?_eq_declared hm hmodel op
  have hfound : ∀ i, m.declared? reg.id owner op = some i →
      (∃ slot, (m.registry reg.id).get? slot = some i) ∧
        w.find? reg reg.model owner op = some ⟨reg.model, i⟩ := by
    intro i hi
    refine ⟨declared?_slot hi, find?_of_own hw hm (by rw [hm]; rfl) ?_ ?_⟩
    · rw [hmodel, hw _ m hm]
    · rw [hslot, hi, Option.map_some]
  have hnone : m.declared? reg.id owner op = none → w.slot? reg ⟨owner.id, op⟩ = none := by
    intro hnone
    rw [hslot, hnone, Option.map_none]
  obtain ⟨i, m', hreuse, h⟩ :=
    handout_reuseOrCreate hw hm hsound hfree hr howner op _ hfound hnone .explicit
  have hset : m.set reg.id owner op = .ok (i, m') := bind_eq_ok_iff.2 ⟨(), hcheck, hreuse⟩
  refine ⟨_, _, ?_, hslot ▸ h⟩
  simp only [execute, Workspace.set, changeRegistry, changeModel, hm, hset, Except.map]
  rfl

/-- A convention goes by look-up. -/
theorem handout_setConvention (hmodel : owner.model = m.id)
    (hcheck : m.ensureRegistrable owner op = .ok ()) (da : Bool) : ∃ w' p,
      w.execute (.setConvention reg reg.model owner op da) =
        some (w', .ok (.procedure (some p))) ∧
        Handout w reg owner op (.ofConvention da) (w.find? reg reg.model owner op) w' p := by
  have hlookup : w.find? reg reg.model owner op =
      (m.lookup? reg.id m owner op).map fun i => ⟨reg.model, i⟩ := by
    simp only [find?, hm, Option.bind_some]
  have hfound : ∀ i, m.lookup? reg.id m owner op = some i →
      (∃ slot, (m.registry reg.id).get? slot = some i) ∧
        w.find? reg reg.model owner op = some ⟨reg.model, i⟩ := by
    intro i hi
    refine ⟨Model.lookup?_eq_some hi, ?_⟩
    rw [hlookup, hi, Option.map_some]
  have hnone : m.lookup? reg.id m owner op = none → w.slot? reg ⟨owner.id, op⟩ = none := by
    intro hnone
    rw [slot?_eq hm, Model.lookup?_eq_none hmodel hnone, Option.map_none]
  obtain ⟨i, m', hreuse, h⟩ :=
    handout_reuseOrCreate hw hm hsound hfree hr howner op _ hfound hnone (.ofConvention da)
  have hset : m.setConvention reg.id m owner op (.ofConvention da) = .ok (i, m') :=
    bind_eq_ok_iff.2 ⟨(), hcheck, hreuse⟩
  refine ⟨_, _, ?_, hlookup ▸ h⟩
  simp only [execute, changeRegistry, changeModel, hm, hset, Except.map]
  rfl

end Calls

/-- **Explicit calls and conventions** on a model that is open, for its own types, are carried out.
An explicit call hands out what is in the slot of the type, and a convention what look-up finds; and
where there is nothing, they hand out a fresh record.  A convention never changes what look-up has
found. -/
theorem create_or_reuse (hsession : Session steps w) (hm : w.model? reg.model = some m)
    (hfree : m.settings.readOnly = false) (hreg : Gave steps (.registry reg))
    (hgave : Gave steps (.type owner)) (hmodel : owner.model = reg.model) (op : Operation) :
    (∃ w' p, w.execute (.set reg owner op) = some (w', .ok (.procedure (some p))) ∧
      Handout w reg owner op .explicit (w.slot? reg ⟨owner.id, op⟩) w' p ∧
      ∃ settings q, w'.record? p = some (settings, q) ∧ q.source = .explicit) ∧
    ∀ da, ∃ w' p,
      w.execute (.setConvention reg reg.model owner op da) =
        some (w', .ok (.procedure (some p))) ∧
      Handout w reg owner op (.ofConvention da) (w.find? reg reg.model owner op) w' p ∧
      ∀ reg' k t op' q, w.Holds t → w.find? reg' k t op' = some q →
        w'.find? reg' k t op' = some q := by
  have hw : w.Numbered := Session.numbered hsession
  have howner : owner.model = m.id := hmodel.trans (hw _ m hm).symm
  obtain ⟨href, hr⟩ := Session.target_good hsession hreg hgave hm howner
  have hsound : m.Sound := Session.sound hsession _ m hm
  have hcheck : m.ensureRegistrable owner op = .ok () := by
    rw [Model.ensureRegistrable, if_pos howner, ModelSettings.ensureWritable_eq_ok_iff]
    exact hfree
  refine ⟨?_, fun da => ?_⟩
  · obtain ⟨w', p, hdoes, h⟩ := handout_set hw hm hsound hfree hr href howner hcheck
    obtain ⟨settings, q, hq, hle⟩ := h.source
    exact ⟨w', p, hdoes, h, settings, q, hq, Source.explicit_le_iff.1 hle⟩
  · obtain ⟨w', p, hdoes, h⟩ :=
      handout_setConvention hw hm hsound hfree hr href howner hcheck da
    exact ⟨w', p, hdoes, h, fun _ _ _ _ _ ht hq => h.finds_all hw hm ht hq⟩

/-- A convention for a derived type takes the record of its root, and an explicit call makes one. -/
theorem create_or_reuse_skipped :
    (∃ m, skipped.2.model? 0 = some m ∧ m.settings.readOnly = false) ∧
    Gave skipped.1 (.registry ⟨0, 0⟩) ∧ Gave skipped.1 (.type ⟨0, 2, "Lion"⟩) ∧
    (∃ w' p, skipped.2.execute (.set ⟨0, 0⟩ ⟨0, 2, "Lion"⟩ .insert) =
        some (w', .ok (.procedure (some p))) ∧
      Handout skipped.2 ⟨0, 0⟩ ⟨0, 2, "Lion"⟩ .insert .explicit none w' p) ∧
    ∃ w' p, skipped.2.execute (.setConvention ⟨0, 0⟩ 0 ⟨0, 2, "Lion"⟩ .insert true) =
        some (w', .ok (.procedure (some p))) ∧
      Handout skipped.2 ⟨0, 0⟩ ⟨0, 2, "Lion"⟩ .insert .annotated (some ⟨0, 0⟩) w' p := by
  have hsession : Session skipped.1 skipped.2 := Run.carryOn .nil (Option.some_get rfl).symm
  have hm : skipped.2.model? 0 = some _ := rfl
  have hreg : Gave skipped.1 (.registry ⟨0, 0⟩) :=
    ⟨⟨.createRegistry 0, .ok (.registry ⟨0, 0⟩)⟩,
      .tail _ (.tail _ (.tail _ (.tail _ (.tail _ (.head _))))), rfl⟩
  have hgave : Gave skipped.1 (.type ⟨0, 2, "Lion"⟩) :=
    ⟨⟨.addType 0 "Lion" (some ⟨0, 1, "Cat"⟩), .ok (.type ⟨0, 2, "Lion"⟩)⟩,
      .tail _ (.tail _ (.tail _ (.tail _ (.head _)))), rfl⟩
  obtain ⟨⟨v, p, hset, hexplicit, _⟩, hconvention⟩ :=
    create_or_reuse hsession hm rfl hreg hgave rfl .insert
  obtain ⟨v', p', hset', hconvention, _⟩ := hconvention true
  exact ⟨⟨_, hm, rfl⟩, hreg, hgave, ⟨v, p, hset, hexplicit⟩, v', p', hset', hconvention⟩

end Workspace

end ProcedureMapping
