import ProcedureMapping.Proofs.Ancestry
import ProcedureMapping.Proofs.LifeCycle

/-!
# Look-up

Look-up asks a registry for the record that serves a type.  It is told a hierarchy by naming a
model, which need not be the one of the registry, nor the one of the type.

Whatever the three are, it reads two slots at most: the slot of the type, and the slot of the root
of the type, the latter only where the hierarchy is that of the registry.  A type keeps its root,
so an answer changes with what is in these two slots and with nothing else.

Main statements:

* `find?_eq` — look-up in terms of two slots;
* `find?_congr` — the two slots tell the answer;
* `lookup_reads_two_slots` — look-up in the registries of a session.
-/

namespace ProcedureMapping

namespace Workspace

/-- The record that serves a type in a registry, along the hierarchy of the model `k`. -/
def find? (w : Workspace) (reg : RegistryRef) (k : ModelId) (owner : EntityRef) (op : Operation) :
    Option ProcedureRef :=
  (w.model? reg.model).bind fun m =>
    (w.model? k).bind fun h => (m.lookup? reg.id h owner op).map fun i => ⟨reg.model, i⟩

/-- The record that a registry has for the type itself. -/
def findDeclared? (w : Workspace) (reg : RegistryRef) (owner : EntityRef) (op : Operation) :
    Option ProcedureRef :=
  (w.model? reg.model).bind fun m =>
    (m.declared? reg.id owner op).map fun i => ⟨reg.model, i⟩

variable {w w' : Workspace} {reg reg' : RegistryRef} {k : ModelId} {m m' : Model}
  {owner : EntityRef} {op : Operation} {slot : Slot} {steps more : List Step}

theorem slot?_eq (hm : w.model? reg.model = some m) (slot : Slot) :
    w.slot? reg slot = ((m.registry reg.id).get? slot).map fun i => ⟨reg.model, i⟩ := by
  rw [slot?, hm, Option.bind_some]

theorem findDeclared?_eq (hw : w.Numbered) (hm : w.model? reg.model = some m) (owner : EntityRef)
    (op : Operation) : w.findDeclared? reg owner op =
      if owner.model = reg.model then w.slot? reg ⟨owner.id, op⟩ else none := by
  have hid : m.id = reg.model := hw _ m hm
  rw [findDeclared?, hm, Option.bind_some, Model.declared?, hid, slot?_eq hm]
  split <;> rfl

/-- A model knows the base of a type of the model `i` only if it is that model. -/
theorem base?_isSome_iff {i : ModelId} {h : Model} (hw : w.Numbered) (hm : w.model? i = some m)
    (hh : w.model? k = some h) (howner : owner.model = i) :
    (h.base? owner).isSome = true ↔ k = i ∧ (m.base? owner).isSome = true := by
  by_cases hk : k = i
  · subst hk
    obtain rfl : m = h := Option.some.inj (hm.symm.trans hh)
    simp
  · have hforeign : owner.model ≠ h.id := by
      rw [howner, hw _ h hh]
      exact Ne.symm hk
    simp [hk, Model.base?_foreign hforeign]

/-- **Look-up in terms of two slots**: that of the type, and that of its root. -/
theorem find?_eq (hw : w.Numbered) (hm : w.model? reg.model = some m)
    (hk : (w.model? k).isSome = true) (owner : EntityRef) (op : Operation) :
    w.find? reg k owner op =
      if owner.model = reg.model then
        (w.slot? reg ⟨owner.id, op⟩).or
          (if k = reg.model ∧ (m.base? owner).isSome = true then
            w.slot? reg ⟨(m.root owner).id, op⟩ else none)
      else none := by
  obtain ⟨h, hh⟩ := Option.isSome_iff_exists.1 hk
  have hid : m.id = reg.model := hw _ m hm
  simp only [find?, hm, hh, Option.bind_some, Model.lookup?, hid, slot?_eq hm]
  by_cases howner : owner.model = reg.model
  · rw [if_pos howner, if_pos howner]
    cases hown : (m.registry reg.id).get? ⟨owner.id, op⟩ with
    | some i => rfl
    | none =>
        have hknows := base?_isSome_iff hw hm hh howner
        cases hbase : h.base? owner with
        | none =>
            rw [hbase] at hknows
            rw [if_neg fun hboth => Bool.noConfusion (hknows.2 hboth)]
            rfl
        | some b =>
            rw [hbase] at hknows
            obtain ⟨rfl, hhas⟩ := hknows.1 rfl
            obtain rfl : m = h := Option.some.inj (hm.symm.trans hh)
            rw [if_pos ⟨rfl, hhas⟩]
            rfl
  · rw [if_neg howner, if_neg howner]
    rfl

/-- **The two slots tell the answer**, in two registries and two states that agree on the base and
the root of the type. -/
theorem find?_congr (hw : w.Numbered) (hw' : w'.Numbered) (hm : w.model? reg.model = some m)
    (hm' : w'.model? reg'.model = some m') (hk : (w.model? k).isSome = true)
    (hk' : (w'.model? k).isSome = true) (hreg : reg'.model = reg.model)
    (hbase : m'.base? owner = m.base? owner) (hroot : m'.root owner = m.root owner)
    (hown : w'.slot? reg' ⟨owner.id, op⟩ = w.slot? reg ⟨owner.id, op⟩)
    (htop : w'.slot? reg' ⟨(m.root owner).id, op⟩ = w.slot? reg ⟨(m.root owner).id, op⟩) :
    w'.find? reg' k owner op = w.find? reg k owner op := by
  rw [find?_eq hw hm hk, find?_eq hw' hm' hk', hreg, hbase, hroot, hown, htop]

/-! ## What look-up finds -/

/-- A record that look-up finds is in one of the two slots. -/
theorem slot?_of_find? (hw : w.Numbered) (hm : w.model? reg.model = some m)
    (hk : (w.model? k).isSome = true) {p : ProcedureRef}
    (h : w.find? reg k owner op = some p) :
    owner.model = reg.model ∧ (w.slot? reg ⟨owner.id, op⟩ = some p ∨
      k = reg.model ∧ w.slot? reg ⟨(m.root owner).id, op⟩ = some p) := by
  rw [find?_eq hw hm hk] at h
  split at h
  · next howner =>
      refine ⟨howner, ?_⟩
      rcases Option.or_eq_some_iff.1 h with hown | ⟨_, htop⟩
      · exact .inl hown
      · split at htop
        · next hboth => exact .inr ⟨hboth.1, htop⟩
        · cases htop
  · cases h

/-- The record in the slot of a type is a record of the type. -/
theorem Session.slot?_owner (hsession : Session steps w) (hm : w.model? reg.model = some m)
    {t : EntityRef} (ht : m.ref? t.id = some t) {p : ProcedureRef}
    (h : w.slot? reg ⟨t.id, op⟩ = some p) :
    ∃ q, w.procedure? p = some (m, q) ∧ q.removed = false ∧ q.operation = op ∧ q.owner = t := by
  obtain ⟨n, hn, hmodel, hget⟩ := slot?_eq_some_iff.1 h
  obtain rfl : m = n := Option.some.inj (hm.symm.trans hn)
  have hsound := Session.sound hsession _ m hm
  obtain ⟨q, hq, hlive, howner, hop⟩ := hsound.served _ _ _ hget
  refine ⟨q, ?_, hlive, hop, Model.eq_of_id_eq (hsound.owned _ q hq) ht howner⟩
  rw [procedure?_eq_some_iff, hmodel]
  exact ⟨hm, hq⟩

/-! ## What keeps the answer -/

theorem numbered_setModel {i : ModelId} {n : Model} (hw : w.Numbered) (hm : w.model? i = some m)
    (hid : n.id = m.id) : (w.setModel i n).Numbered := by
  intro j n' hn'
  rw [model?_setModel hm] at hn'
  split at hn'
  · next hij =>
      subst hij
      cases hn'
      rw [hid, hw _ m hm]
  · exact hw j n' hn'

/-- **No other slot matters**: with any other contents of the registry that agree on the two slots,
look-up finds the same. -/
theorem find?_setRegistry (hw : w.Numbered) (hm : w.model? reg.model = some m)
    (hk : (w.model? k).isSome = true) {slots : Registry}
    (hown : slots.get? ⟨owner.id, op⟩ = (m.registry reg.id).get? ⟨owner.id, op⟩)
    (htop : slots.get? ⟨(m.root owner).id, op⟩ =
      (m.registry reg.id).get? ⟨(m.root owner).id, op⟩) :
    (w.setModel reg.model (m.setRegistry reg.id slots)).find? reg k owner op =
      w.find? reg k owner op := by
  have hm' : (w.setModel reg.model (m.setRegistry reg.id slots)).model? reg.model =
      some (m.setRegistry reg.id slots) := by
    rw [model?_setModel hm, if_pos rfl]
  have hk' : ((w.setModel reg.model (m.setRegistry reg.id slots)).model? k).isSome = true := by
    rw [model?_setModel hm]
    split
    · rfl
    · exact hk
  have hbase : ∀ t, (m.setRegistry reg.id slots).base? t = m.base? t := Model.base?_congr rfl rfl
  have hslot : ∀ slot, slots.get? slot = (m.registry reg.id).get? slot →
      (w.setModel reg.model (m.setRegistry reg.id slots)).slot? reg slot = w.slot? reg slot := by
    intro slot hsame
    have hget : ((m.setRegistry reg.id slots).registry reg.id).get? slot =
        (m.registry reg.id).get? slot := by
      rcases Nat.lt_or_ge reg.id m.registries.length with hlt | hge
      · simpa [Model.registry, Model.setRegistry, hlt] using hsame
      · -- There is no such registry to put the slots into.
        simp [Model.registry, Model.setRegistry, Nat.not_lt.2 hge]
    rw [slot?_eq hm', slot?_eq hm, hget]
  exact find?_congr hw (numbered_setModel hw hm rfl) hm hm' hk hk' rfl (hbase owner)
    (Model.climb_congr hbase _ _) (hslot _ hown) (hslot _ htop)

/-- **No later change of anything else matters**: any run keeps what look-up finds unless it changes
one of the two slots. -/
theorem Run.find?_eq {ok : List Step → Command → Prop} (hmore : Run ok w more w')
    (hw : w.Numbered) (hfounded : ∀ i m, w.model? i = some m → m.Founded)
    (hm : w.model? reg.model = some m) (hk : (w.model? k).isSome = true)
    (howner : owner.model = reg.model → m.ref? owner.id = some owner)
    (hreg : reg'.model = reg.model)
    (hown : w'.slot? reg' ⟨owner.id, op⟩ = w.slot? reg ⟨owner.id, op⟩)
    (htop : w'.slot? reg' ⟨(m.root owner).id, op⟩ = w.slot? reg ⟨(m.root owner).id, op⟩) :
    w'.find? reg' k owner op = w.find? reg k owner op := by
  obtain ⟨m', hm', hretains⟩ := Run.retains hmore hfounded hm
  obtain ⟨h, hh⟩ := Option.isSome_iff_exists.1 hk
  obtain ⟨h', hh', _⟩ := Run.retains hmore hfounded hh
  have hk' : (w'.model? k).isSome = true := by rw [hh']; rfl
  have hw' : w'.Numbered := Run.numbered hmore hw
  rw [← hreg] at hm'
  by_cases hsame : owner.model = reg.model
  · have ht := howner hsame
    exact find?_congr hw hw' hm hm' hk hk' hreg (hretains.base? owner ht) (hretains.root owner ht)
      hown htop
  · rw [Workspace.find?_eq hw hm hk, Workspace.find?_eq hw' hm' hk', hreg, if_neg hsame,
      if_neg hsame]

/-- Registering a type touches no slot. -/
theorem slot?_addType {i : ModelId} {name : String} {base : Option EntityRef}
    {a : Except Error Outcome} (hm : w.model? reg.model = some m)
    (h : w.execute (.addType i name base) = some (w', a)) (slot : Slot) :
    w'.slot? reg slot = w.slot? reg slot := by
  rcases (execute_effect rfl h).model_after hm with hsame | ⟨e, hmakes, _, hafter⟩
  · rw [slot?_eq hsame, slot?_eq hm]
  · rw [slot?_eq hafter, slot?_eq hm]
    cases hmakes
    rfl

theorem Run.slot?_addType {ok : List Step → Command → Prop} (hmore : Run ok w more w')
    (hfounded : ∀ i m, w.model? i = some m → m.Founded) (hm : w.model? reg.model = some m)
    (honly : ∀ s ∈ more, ∃ i name base, s.command = .addType i name base) (slot : Slot) :
    w'.slot? reg slot = w.slot? reg slot := by
  induction hmore with
  | nil => rfl
  | snoc before _ _ does ih =>
      obtain ⟨m', hm', _⟩ := Run.retains before hfounded hm
      obtain ⟨i, name, base, hc⟩ := honly _ (List.mem_append_right _ (List.mem_singleton.2 rfl))
      dsimp only at hc
      subst hc
      rw [Workspace.slot?_addType hm' does]
      exact ih fun s hs => honly s (List.mem_append_left _ hs)

/-! ## Look-up in a session -/

/-- What look-up for a type finds in a registry of the model `m`, along the hierarchy of `k`. -/
structure TwoSlots (w : Workspace) (reg : RegistryRef) (m : Model) (k : ModelId)
    (owner : EntityRef) (op : Operation) : Prop where
  foreign : owner.model ≠ reg.model → w.find? reg k owner op = none
  own : owner.model = reg.model → ∀ p, w.slot? reg ⟨owner.id, op⟩ = some p →
    w.find? reg k owner op = some p
  root : owner.model = reg.model → w.slot? reg ⟨owner.id, op⟩ = none →
    k = reg.model → (m.base? owner).isSome = true →
    w.find? reg k owner op = w.slot? reg ⟨(m.root owner).id, op⟩
  nothing : owner.model = reg.model → w.slot? reg ⟨owner.id, op⟩ = none →
    ¬ (k = reg.model ∧ (m.base? owner).isSome = true) → w.find? reg k owner op = none
  served : ∀ p, w.find? reg k owner op = some p → ∃ q, w.procedure? p = some (m, q) ∧
    q.removed = false ∧ q.operation = op ∧
      (q.owner = owner ∨ k = reg.model ∧ q.owner = m.root owner)
  declared : k ≠ reg.model → w.find? reg k owner op = w.findDeclared? reg owner op
  contents : ∀ slots : Registry,
    slots.get? ⟨owner.id, op⟩ = (m.registry reg.id).get? ⟨owner.id, op⟩ →
    slots.get? ⟨(m.root owner).id, op⟩ = (m.registry reg.id).get? ⟨(m.root owner).id, op⟩ →
    (w.setModel reg.model (m.setRegistry reg.id slots)).find? reg k owner op =
      w.find? reg k owner op
  states : ∀ more w' reg', FreeRun w more w' → reg'.model = reg.model →
    w'.slot? reg' ⟨owner.id, op⟩ = w.slot? reg ⟨owner.id, op⟩ →
    w'.slot? reg' ⟨(m.root owner).id, op⟩ = w.slot? reg ⟨(m.root owner).id, op⟩ →
    w'.find? reg' k owner op = w.find? reg k owner op
  registering : ∀ more w', FreeRun w more w' →
    (∀ s ∈ more, ∃ i name base, s.command = .addType i name base) →
    w'.find? reg k owner op = w.find? reg k owner op

/-- **Look-up reads two slots** of the registry: that of the type, and that of its root. -/
theorem lookup_reads_two_slots (hsession : Session steps w)
    (hm : w.model? reg.model = some m) (hk : Gave steps (.model k))
    (howner : Gave steps (.type owner)) (op : Operation) : TwoSlots w reg m k owner op := by
  have hw : w.Numbered := Session.numbered hsession
  have hfounded := Session.founded hsession
  have hhas := Session.hasModel hsession hk
  have href : owner.model = reg.model → m.ref? owner.id = some owner := by
    intro hsame
    obtain ⟨n, hn, href⟩ := Session.holds hsession howner
    rw [hsame, hm] at hn
    cases hn
    exact href
  have hfind := find?_eq hw hm hhas owner op
  refine
    { foreign := ?_, own := ?_, root := ?_, nothing := ?_, served := ?_, declared := ?_,
      contents := ?_, states := ?_, registering := ?_ }
  · intro hforeign
    rw [hfind, if_neg hforeign]
  · intro hsame p hown
    rw [hfind, if_pos hsame, hown, Option.some_or]
  · intro hsame hown hsees hbase
    rw [hfind, if_pos hsame, hown, Option.none_or, if_pos ⟨hsees, hbase⟩]
  · intro hsame hown hblind
    rw [hfind, if_pos hsame, hown, Option.none_or, if_neg hblind]
  · intro p hfound
    obtain ⟨hsame, hown | ⟨hsees, htop⟩⟩ := slot?_of_find? hw hm hhas hfound
    · obtain ⟨q, hq, hlive, hop, hq'⟩ := Session.slot?_owner hsession hm (href hsame) hown
      exact ⟨q, hq, hlive, hop, .inl hq'⟩
    · obtain ⟨q, hq, hlive, hop, hq'⟩ :=
        Session.slot?_owner hsession hm (Model.ref?_root (href hsame)) htop
      exact ⟨q, hq, hlive, hop, .inr ⟨hsees, hq'⟩⟩
  · intro hblind
    rw [hfind, findDeclared?_eq hw hm]
    simp [hblind]
  · intro slots hown htop
    exact find?_setRegistry hw hm hhas hown htop
  · intro more w' reg' hmore hreg hown htop
    exact Run.find?_eq hmore hw hfounded hm hhas href hreg hown htop
  · intro more w' hmore honly
    have hslot := Run.slot?_addType hmore hfounded hm honly
    exact Run.find?_eq hmore hw hfounded hm hhas href rfl (hslot _) (hslot _)

/-- Three types in a row, the first and the second with a record. -/
def skipped : List Step × Workspace :=
  (carryOn (IsOpen []) [] .empty
    [.createModel .standard, .createModel .standard, .addType 0 "Animal" none,
      .addType 0 "Cat" (some ⟨0, 0, "Animal"⟩), .addType 0 "Lion" (some ⟨0, 1, "Cat"⟩),
      .createRegistry 0, .set ⟨0, 0⟩ ⟨0, 0, "Animal"⟩ .insert,
      .set ⟨0, 0⟩ ⟨0, 1, "Cat"⟩ .insert]).get rfl

/-- The type between is passed over, and along the hierarchy of another model there is no root. -/
theorem lookup_reads_two_slots_skipped :
    (∃ m, skipped.2.model? 0 = some m ∧ Gave skipped.1 (.model 0) ∧ Gave skipped.1 (.model 1) ∧
      Gave skipped.1 (.type ⟨0, 2, "Lion"⟩) ∧
      TwoSlots skipped.2 ⟨0, 0⟩ m 0 ⟨0, 2, "Lion"⟩ .insert ∧
      TwoSlots skipped.2 ⟨0, 0⟩ m 1 ⟨0, 2, "Lion"⟩ .insert) ∧
    skipped.2.find? ⟨0, 0⟩ 0 ⟨0, 2, "Lion"⟩ .insert = some ⟨0, 0⟩ ∧
    skipped.2.find? ⟨0, 0⟩ 1 ⟨0, 2, "Lion"⟩ .insert = none := by
  have hsession : Session skipped.1 skipped.2 := Run.carryOn .nil (Option.some_get rfl).symm
  have hm : skipped.2.model? 0 = some _ := rfl
  have hfirst : Gave skipped.1 (.model 0) :=
    ⟨⟨.createModel .standard, .ok (.model 0)⟩, .head _, rfl⟩
  have hsecond : Gave skipped.1 (.model 1) :=
    ⟨⟨.createModel .standard, .ok (.model 1)⟩, .tail _ (.head _), rfl⟩
  have howner : Gave skipped.1 (.type ⟨0, 2, "Lion"⟩) :=
    ⟨⟨.addType 0 "Lion" (some ⟨0, 1, "Cat"⟩), .ok (.type ⟨0, 2, "Lion"⟩)⟩,
      .tail _ (.tail _ (.tail _ (.tail _ (.head _)))), rfl⟩
  exact ⟨⟨_, hm, hfirst, hsecond, howner,
    lookup_reads_two_slots hsession hm hfirst howner .insert,
    lookup_reads_two_slots hsession hm hsecond howner .insert⟩, rfl, rfl⟩

end Workspace

end ProcedureMapping
