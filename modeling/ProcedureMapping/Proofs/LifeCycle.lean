import ProcedureMapping.Proofs.Ledger
import ProcedureMapping.Proofs.Precedence
import ProcedureMapping.Proofs.Removal
import ProcedureMapping.Proofs.SlotSources

/-!
# The life cycle of a slot

The source of a slot is told by its **history**: the sources of the calls that took the slot since
it was last emptied.  Their maximum is the source of the slot, and a slot without history is empty.
The calls that count are told by the history alone, so the whole state of a registry can be read
off the calls on it.

Main statements:

* `strongest_eq_some_iff` — the strongest source is the maximum;
* `execute_mirrors` — one more step is one more call in the history;
* `Session.mirrors` — the slots of a registry mirror their history;
* `slot_life_cycle` — all of it, and what removals and handles do to a slot.
-/

namespace ProcedureMapping

/-! ## Histories -/

/-- The strongest of some sources. -/
def strongest (sources : List Source) : Option Source := topSource (sources.map (Call.mk none))

theorem strongest_append (sources : List Source) (s : Source) :
    strongest (sources ++ [s]) = some (s.max (strongest sources)) := by
  rw [strongest, List.map_append, List.map_singleton, topSource_append]
  rfl

theorem strongest_eq_none_iff {sources : List Source} :
    strongest sources = none ↔ sources = [] := by
  rw [strongest, topSource_eq_none_iff, List.map_eq_nil_iff]

/-- The strongest source is the maximum. -/
theorem strongest_eq_some_iff {sources : List Source} {s : Source} :
    strongest sources = some s ↔ s ∈ sources ∧ ∀ t ∈ sources, t ≤ s := by
  rw [strongest, topSource_eq_some_iff]
  simp

/-- A source is as strong as the strongest of some exactly when there are some, and it is as strong
as each. -/
theorem exists_strongest_le_iff {sources : List Source} {s : Source} :
    (∃ top, strongest sources = some top ∧ top ≤ s) ↔ sources ≠ [] ∧ ∀ t ∈ sources, t ≤ s := by
  constructor
  · rintro ⟨top, htop, hle⟩
    obtain ⟨hmem, hmax⟩ := strongest_eq_some_iff.1 htop
    exact ⟨List.ne_nil_of_mem hmem, fun t ht => Source.le_trans (hmax t ht) hle⟩
  · rintro ⟨hne, hall⟩
    cases htop : strongest sources with
    | none => exact absurd (strongest_eq_none_iff.1 htop) hne
    | some top => exact ⟨top, rfl, hall top (strongest_eq_some_iff.1 htop).1⟩

/-- For each slot, the sources of the calls that took it since it was last emptied. -/
abbrev History := Slot → List Source

namespace History

def empty : History := fun _ => []

variable (h : History)

def taken (slot : Slot) : Bool := !(h slot).isEmpty

/-- One more call takes a slot. -/
def extend (slot : Slot) (s : Source) : History :=
  fun other => if other = slot then h slot ++ [s] else h other

/-- A slot is emptied. -/
def clear (slot : Slot) : History := fun other => if other = slot then [] else h other

/-- The history of a registry of the model `m` after one more call.  Calls on other registries and
for the types of other models do not count, and a removal by convention does only where its source
is as strong as all that took the slot. -/
def after (m : Model) (reg : RegistryRef) : Command → History
  | .set reg' owner op =>
      if reg' = reg ∧ owner.model = m.id then h.extend ⟨owner.id, op⟩ .explicit else h
  | .setConvention reg' k owner op da =>
      if reg' = reg ∧ owner.model = m.id then
        h.extend (if k = m.id then m.slotFor h.taken owner op else ⟨owner.id, op⟩)
          (.ofConvention da)
      else h
  | .remove reg' owner op =>
      if reg' = reg ∧ owner.model = m.id then h.clear ⟨owner.id, op⟩ else h
  | .removeConvention reg' owner op da =>
      if reg' = reg ∧ owner.model = m.id ∧ ∀ t ∈ h ⟨owner.id, op⟩, t ≤ .ofConvention da then
        h.clear ⟨owner.id, op⟩
      else h
  | _ => h

variable {h} {m : Model} {reg : RegistryRef} {c : Command} {slot : Slot}

theorem strongest_extend (target : Slot) (s : Source) :
    strongest (h.extend target s slot) =
      if slot = target then some (s.max (strongest (h target))) else strongest (h slot) := by
  unfold extend
  split
  · exact strongest_append (h target) s
  · rfl

theorem strongest_clear (target : Slot) :
    strongest (h.clear target slot) = if slot = target then none else strongest (h slot) := by
  unfold clear
  split <;> rfl

/-- There is nothing to empty in a slot without history. -/
theorem clear_of_empty (hempty : h slot = []) : h.clear slot = h := by
  funext other
  unfold clear
  split
  · next heq => rw [heq, hempty]
  · rfl

theorem after_of_target (htarget : ∀ owner op, c.target? = some (reg, owner, op) →
    owner.model ≠ m.id) : h.after m reg c = h := by
  have hother : ∀ {reg' : RegistryRef} {owner : EntityRef} {op : Operation},
      c.target? = some (reg', owner, op) → ¬ (reg' = reg ∧ owner.model = m.id) := by
    rintro reg' owner op hc ⟨rfl, howner⟩
    exact htarget owner op hc howner
  cases c with
  | set | setConvention | remove => exact if_neg (hother rfl)
  | removeConvention => exact if_neg fun hboth => hother rfl ⟨hboth.1, hboth.2.1⟩
  | _ => rfl

end History

/-- The history of a registry of the model `m` through some steps. -/
def slotHistory (m : Model) (reg : RegistryRef) (steps : List Step) : History :=
  steps.foldl (fun h step => h.after m reg step.command) .empty

theorem slotHistory_append (m : Model) (reg : RegistryRef) (steps : List Step) (step : Step) :
    slotHistory m reg (steps ++ [step]) = (slotHistory m reg steps).after m reg step.command := by
  simp [slotHistory, List.foldl_append]

/-! ## Slots of a session -/

/-- Only calls on registries make or remove records, or raise their sources. -/
theorem Command.Makes.quiet {c : Command} {i : ModelId} {e : Model.Change} (hmakes : c.Makes i e)
    (hpublic : c.isPublic = true) (htarget : c.target? = none) : e.isQuiet = true := by
  cases hmakes with
  | setNew | setAgain | setConventionNew | setConventionAgain | remove | removeConvention =>
      cases htarget
  | write | bindSignature | restamp | detach | createProcedure => cases hpublic
  | _ => rfl

namespace Workspace

/-- The source of the record in a slot of a registry. -/
def slotSource? (w : Workspace) (reg : RegistryRef) (slot : Slot) : Option Source :=
  (w.model? reg.model).bind (·.slotSource? reg.id slot)

/-- Whether the slots of a registry have the strongest sources of their history. -/
def Mirrors (w : Workspace) (reg : RegistryRef) (h : History) : Prop :=
  ∀ slot, w.slotSource? reg slot = strongest (h slot)

variable {w w' : Workspace} {reg reg' : RegistryRef} {h : History} {m n n' : Model} {c : Command}
  {steps : List Step} {owner : EntityRef} {op : Operation} {a : Except Error Outcome}

theorem slotSource?_eq (hn : w.model? reg.model = some n) (slot : Slot) :
    w.slotSource? reg slot = n.slotSource? reg.id slot := by
  rw [slotSource?, hn, Option.bind_some]

/-- A change of one slot of one registry. -/
theorem slotSource?_setModel {target : Slot} {source : Option Source}
    (hn : w.model? reg'.model = some n)
    (hafter : ∀ r slot, n'.slotSource? r slot =
      if r = reg'.id ∧ slot = target then source else n.slotSource? r slot)
    (reg : RegistryRef) (slot : Slot) :
    (w.setModel reg'.model n').slotSource? reg slot =
      if reg' = reg ∧ slot = target then source else w.slotSource? reg slot := by
  unfold slotSource?
  rw [model?_setModel hn]
  by_cases hmodel : reg'.model = reg.model
  · have hsame : reg' = reg ↔ reg.id = reg'.id := by
      cases reg
      cases reg'
      cases hmodel
      simp [eq_comm]
    rw [if_pos hmodel, Option.bind_some, hafter, ← hmodel, hn, Option.bind_some]
    simp only [hsame]
  · have hother : ¬ reg' = reg := fun heq => hmodel (congrArg RegistryRef.model heq)
    rw [if_neg hmodel, if_neg (fun h => hother h.1)]

/-- A call that takes a slot. -/
theorem Mirrors.extend {target : Slot} {i : ProcedureId} {s : Source} (hw : w.Mirrors reg h)
    (hn : w.model? reg'.model = some n) (hsound : n.Sound)
    (hr : reg'.id < n.registries.length)
    (hown : (n.registry reg'.id).get? target = none → target = ⟨owner.id, op⟩)
    (hreuse : n.reuseOrCreate reg'.id ((n.registry reg'.id).get? target) owner op s =
      .ok (i, n')) :
    (w.setModel reg'.model n').Mirrors reg (if reg' = reg then h.extend target s else h) := by
  intro slot
  have hafter := Model.reuseOrCreate_slotSource? hsound hr hown hreuse
  rw [slotSource?_setModel hn hafter]
  by_cases hreg : reg' = reg
  · subst hreg
    rw [if_pos rfl, History.strongest_extend, ← slotSource?_eq hn, hw, hw]
    simp only [true_and]
  · rw [if_neg hreg, if_neg (fun h => hreg h.1), hw]

/-- A removal that is carried out. -/
theorem Mirrors.clear {s : Source} (hw : w.Mirrors reg h) (hn : w.model? reg'.model = some n)
    (howner : owner.model = n.id) :
    (w.setModel reg'.model (n.apply (.vacate reg'.id owner op s))).Mirrors reg
      (if reg' = reg then h.clear ⟨owner.id, op⟩ else h) := by
  intro slot
  rw [slotSource?_setModel hn fun _ _ => Model.slotSource?_vacate howner]
  by_cases hreg : reg' = reg
  · subst hreg
    rw [if_pos rfl, History.strongest_clear, hw]
    simp only [true_and]
  · rw [if_neg hreg, if_neg (fun h => hreg h.1), hw]

/-- **A command that is no call on a registry** leaves the sources of all slots as they are. -/
theorem Effect.slotSource? (heffect : w.Effect c w') (hpublic : c.isPublic = true)
    (htarget : c.target? = none) (reg : RegistryRef) (slot : Slot) :
    w'.slotSource? reg slot = w.slotSource? reg slot := by
  cases hn : w'.model? reg.model with
  | none =>
      cases hm : w.model? reg.model with
      | none => rw [Workspace.slotSource?, Workspace.slotSource?, hn, hm]
      | some m =>
          rcases heffect.model_after hm with hsame | ⟨e, _, _, hafter⟩
          · rw [hn] at hsame
            cases hsame
          · rw [hn] at hafter
            cases hafter
  | some n =>
      rw [slotSource?_eq hn]
      rcases heffect.model_before hn with
        ⟨config, hlast, rfl⟩ | ⟨m, hm, rfl | ⟨e, hmakes, _, rfl⟩⟩
      · have hnone : w.model? reg.model = none := by
          rw [hlast, model?]
          exact List.getElem?_eq_none (Nat.le_refl _)
        rw [Workspace.slotSource?, hnone]
        simp [Model.slotSource?, Model.new, Model.registry]
      · rw [slotSource?_eq hm]
      · rw [slotSource?_eq hm, Model.slotSource?_quiet (hmakes.quiet hpublic htarget)]

/-- A registry carries out calls for the types of its own model only. -/
theorem execute_ok_owner {o : Outcome} (htarget : c.target? = some (reg', owner, op))
    (hn : w.model? reg'.model = some n) (hdoes : w.execute c = some (w', .ok o)) :
    owner.model = n.id := by
  have hcalled : ∀ {call : Model → Except Error (Option ProcedureId × Model)},
      w.changeRegistry reg' call = some (w', .ok o) → ∃ result, call n = .ok result := by
    intro call hdone
    obtain ⟨m, found, m', hm, hcall, _⟩ := changeRegistry_ok hdone
    obtain rfl : n = m := Option.some.inj (hn.symm.trans hm)
    exact ⟨_, hcall⟩
  have hcheck : n.ensureRegistrable owner op = .ok () := by
    rcases Command.target?_eq_some htarget with rfl | ⟨k, da, rfl⟩ | rfl | ⟨da, rfl⟩
    · obtain ⟨_, hcall⟩ := hcalled hdoes
      obtain ⟨_, hset, _⟩ := map_eq_ok_iff.1 hcall
      obtain ⟨_, hcheck, _⟩ := bind_eq_ok_iff.1 hset
      exact hcheck
    · simp only [execute] at hdoes
      split at hdoes
      · cases hdoes
      · obtain ⟨_, hcall⟩ := hcalled hdoes
        obtain ⟨_, hset, _⟩ := map_eq_ok_iff.1 hcall
        obtain ⟨_, hcheck, _⟩ := bind_eq_ok_iff.1 hset
        exact hcheck
    · obtain ⟨_, hcall⟩ := hcalled hdoes
      obtain ⟨_, hcheck, _⟩ := bind_eq_ok_iff.1 hcall
      exact hcheck
    · obtain ⟨_, hcall⟩ := hcalled hdoes
      obtain ⟨_, hcheck, _⟩ := bind_eq_ok_iff.1 hcall
      exact hcheck
  exact (Model.ensureRegistrable_eq_ok hcheck).1

/-- The slots that are taken are those with a history. -/
theorem Mirrors.taken (hw : w.Mirrors reg h) (hn : w.model? reg.model = some n)
    (hsound : n.Sound) : n.taken reg.id = h.taken := by
  funext slot
  rw [← Model.slotSource?_isSome hsound, ← slotSource?_eq hn, hw slot, History.taken]
  cases hempty : h slot with
  | nil => rfl
  | cons s rest =>
      cases htop : strongest (s :: rest) with
      | none => cases strongest_eq_none_iff.1 htop
      | some t => rfl

section Step

variable {k : ModelId} {da : Bool} {o : Outcome}

/-- The slot that a convention takes is the one that the history tells. -/
theorem slotFor_history {hier : Model} (hsession : Session steps w)
    (hopen : IsOpen [] steps (.setConvention reg k owner op da))
    (hn : w.model? reg.model = some n) (hearly : n.Early m) (howner : owner.model = n.id)
    (hk : w.model? k = some hier) (hw : w.Mirrors reg h) :
    hier.slotFor (n.taken reg.id) owner op =
      if k = m.id then m.slotFor h.taken owner op else ⟨owner.id, op⟩ := by
  have hnid : n.id = reg.model := Session.numbered hsession _ n hn
  have hkid : hier.id = k := Session.numbered hsession _ hier hk
  rw [hw.taken hn (Session.sound hsession _ n hn)]
  by_cases hsame : k = m.id
  · have hreg : k = reg.model := by rw [hsame, ← hearly.id, hnid]
    rw [hreg, hn] at hk
    obtain rfl : n = hier := Option.some.inj hk
    obtain ⟨hheld, _⟩ := Session.target_good hsession hopen.2.1 hopen.2.2.1 hn howner
    rw [if_pos hsame]
    exact Model.slotFor_congr h.taken op (hearly.base? owner hheld) (hearly.root owner hheld)
  · have hforeign : owner.model ≠ hier.id := by
      rw [howner, hearly.id, hkid]
      exact Ne.symm hsame
    rw [if_neg hsame]
    exact Model.slotFor_of_base?_eq_none h.taken op (Model.base?_foreign hforeign)

/-- A convention that is carried out. -/
theorem mirrors_setConvention (hsession : Session steps w)
    (hopen : IsOpen [] steps (.setConvention reg' k owner op da))
    (hdoes : w.execute (.setConvention reg' k owner op da) = some (w', .ok o))
    (hn : w.model? reg'.model = some n) (howner : owner.model = n.id)
    (hearly : reg' = reg → n.Early m) (hw : w.Mirrors reg h) :
    w'.Mirrors reg (h.after m reg (.setConvention reg' k owner op da)) := by
  obtain ⟨n', hier, i, m', hn', hk, hreuse, rfl, _⟩ := execute_setConvention hdoes
  obtain rfl : n = n' := Option.some.inj (hn.symm.trans hn')
  rw [Model.lookup?_eq_get? hier op howner] at hreuse
  have hown : (n.registry reg'.id).get? (hier.slotFor (n.taken reg'.id) owner op) = none →
      hier.slotFor (n.taken reg'.id) owner op = ⟨owner.id, op⟩ := by
    intro hempty
    apply Model.slotFor_of_not_taken
    rw [Model.taken, hempty]
    rfl
  obtain ⟨_, hr⟩ := Session.target_good hsession hopen.2.1 hopen.2.2.1 hn howner
  have hextend := hw.extend hn (Session.sound hsession _ n hn) hr hown hreuse
  have hafter : h.after m reg (.setConvention reg' k owner op da) =
      if reg' = reg then
        h.extend (hier.slotFor (n.taken reg'.id) owner op) (.ofConvention da)
      else h := by
    by_cases hreg : reg' = reg
    · subst hreg
      have hm : owner.model = m.id := by rw [howner, (hearly rfl).id]
      rw [slotFor_history hsession hopen hn (hearly rfl) howner hk hw]
      simp only [History.after, hm, true_and, if_true]
    · simp only [History.after, hreg, false_and, if_false]
  exact hafter ▸ hextend

/-- A removal by convention that is not refused. -/
theorem mirrors_removeConvention
    (hdoes : w.execute (.removeConvention reg' owner op da) = some (w', .ok o))
    (hn : w.model? reg'.model = some n) (howner : owner.model = n.id)
    (hm : reg' = reg → owner.model = m.id) (hw : w.Mirrors reg h) :
    w'.Mirrors reg (h.after m reg (.removeConvention reg' owner op da)) := by
  obtain ⟨n', hn', hdone⟩ := execute_removeConvention hdoes
  obtain rfl : n = n' := Option.some.inj (hn.symm.trans hn')
  rw [Model.declaredSource?_eq howner] at hdone
  have hsource : reg' = reg →
      n.slotSource? reg'.id ⟨owner.id, op⟩ = strongest (h ⟨owner.id, op⟩) := by
    rintro rfl
    rw [← hw ⟨owner.id, op⟩, slotSource?_eq hn]
  rcases hdone with ⟨recorded, hrecorded, hle, rfl, _⟩ | ⟨hkept, rfl, _⟩
  · have hclear : (w.setModel reg'.model
        (n.apply (.vacate reg'.id owner op (.ofConvention da)))).Mirrors reg
          (if reg' = reg then h.clear ⟨owner.id, op⟩ else h) := hw.clear hn howner
    have hall : reg' = reg → ∀ t ∈ h ⟨owner.id, op⟩, t ≤ .ofConvention da := by
      intro hreg
      have htop := (hsource hreg).symm.trans hrecorded
      exact (exists_strongest_le_iff.1 ⟨recorded, htop, hle⟩).2
    have hafter : h.after m reg (.removeConvention reg' owner op da) =
        if reg' = reg then h.clear ⟨owner.id, op⟩ else h :=
      if_congr (and_iff_left_of_imp fun hreg => ⟨hm hreg, hall hreg⟩) rfl rfl
    exact hafter ▸ hclear
  · have hafter : h.after m reg (.removeConvention reg' owner op da) = h := by
      simp only [History.after]
      split
      · next hboth =>
          obtain ⟨hreg, _, hall⟩ := hboth
          apply History.clear_of_empty
          -- A source that is not overridden is one of those that took the slot.
          apply Classical.byContradiction
          intro hne
          obtain ⟨top, htop, hle⟩ := exists_strongest_le_iff.2 ⟨hne, hall⟩
          exact hkept top ((hsource hreg).trans htop) hle
      · rfl
    exact hafter.symm ▸ hw

/-- A call that is carried out on the registry of a session. -/
theorem mirrors_call (hsession : Session steps w) (hopen : IsOpen [] steps c)
    (htarget : c.target? = some (reg', owner, op)) (hdoes : w.execute c = some (w', .ok o))
    (hearly : ∀ n, w.model? reg.model = some n → n.Early m)
    (hw : w.Mirrors reg h) : w'.Mirrors reg (h.after m reg c) := by
  obtain ⟨hreg', howner'⟩ := target_given htarget hopen.2
  obtain ⟨n, hn, _⟩ := Session.hasRegistry hsession hreg'
  have howner : owner.model = n.id := execute_ok_owner htarget hn hdoes
  have hearly' : reg' = reg → n.Early m := by
    rintro rfl
    exact hearly n hn
  have hm : reg' = reg → owner.model = m.id := fun hreg => by rw [howner, (hearly' hreg).id]
  rcases Command.target?_eq_some htarget with rfl | ⟨k, da, rfl⟩ | rfl | ⟨da, rfl⟩
  · obtain ⟨n', i, m', hn', hreuse, rfl, _⟩ := execute_set hdoes
    obtain rfl : n = n' := Option.some.inj (hn.symm.trans hn')
    rw [Model.declared?_eq_get? howner] at hreuse
    obtain ⟨_, hr⟩ := Session.target_good hsession hreg' howner' hn howner
    have hextend := hw.extend hn (Session.sound hsession _ n hn) hr (fun _ => rfl) hreuse
    have hafter : h.after m reg (.set reg' owner op) =
        if reg' = reg then h.extend ⟨owner.id, op⟩ .explicit else h :=
      if_congr (and_iff_left_of_imp hm) rfl rfl
    exact hafter ▸ hextend
  · exact mirrors_setConvention hsession hopen hdoes hn howner hearly' hw
  · obtain ⟨n', hn', rfl, _⟩ := execute_remove hdoes
    obtain rfl : n = n' := Option.some.inj (hn.symm.trans hn')
    have hclear : (w.setModel reg'.model
        (n.apply (.vacate reg'.id owner op .explicit))).Mirrors reg
          (if reg' = reg then h.clear ⟨owner.id, op⟩ else h) := hw.clear hn howner
    have hafter : h.after m reg (.remove reg' owner op) =
        if reg' = reg then h.clear ⟨owner.id, op⟩ else h :=
      if_congr (and_iff_left_of_imp hm) rfl rfl
    exact hafter ▸ hclear
  · exact mirrors_removeConvention hdoes hn howner hm hw

/-- **One more step of a session** is one more call in the history. -/
theorem execute_mirrors (hsession : Session steps w) (hopen : IsOpen [] steps c)
    (hsingle : c.isSingle = true) (hdoes : w.execute c = some (w', a))
    (hearly : ∀ n, w.model? reg.model = some n → n.Early m) (hid : m.id = reg.model)
    (hw : w.Mirrors reg h) : w'.Mirrors reg (h.after m reg c) := by
  cases htarget : c.target? with
  | none =>
      have hafter : h.after m reg c = h := by
        apply History.after_of_target
        intro owner op hsome
        rw [htarget] at hsome
        cases hsome
      rw [hafter]
      intro slot
      rw [(execute_effect hsingle hdoes).slotSource? hopen.1 htarget]
      exact hw slot
  | some target =>
      obtain ⟨reg', owner, op⟩ := target
      cases a with
      | ok o => exact mirrors_call hsession hopen htarget hdoes hearly hw
      | error x =>
          obtain ⟨n, _, _, hn, hnid, hdoes', hrefuses⟩ :=
            Session.refusals hsession hopen htarget
          rw [hdoes] at hdoes'
          cases hdoes'
          obtain ⟨rfl, hrefused⟩ := hrefuses x rfl
          have hafter : h.after m reg c = h := by
            apply History.after_of_target
            intro owner' op' hsome
            rw [htarget] at hsome
            cases hsome
            rcases hrefused with ⟨hforeign, _⟩ | ⟨_, hfinal, _⟩
            · rw [hid, ← hnid]
              exact hforeign
            · rw [(hearly n hn).isOpen] at hfinal
              cases hfinal
          rw [hafter]
          exact hw

/-- **The slots of a registry mirror their history** while its model is not finalized. -/
theorem Session.mirrors (hsession : Session steps w)
    (hearly : ∀ n, w.model? reg.model = some n → n.Early m) (hid : m.id = reg.model) :
    w.Mirrors reg (slotHistory m reg steps) := by
  induction hsession with
  | nil =>
      intro slot
      rfl
  | @snoc steps v v' c a before single allowed does ih =>
      have hbefore : ∀ n, v.model? reg.model = some n → n.Early m := by
        intro n hn
        have hfounded : n.Founded := Session.founded before _ n hn
        rcases (execute_effect single does).model_after hn with hsame | ⟨e, _, hallowed, hafter⟩
        · exact hearly n hsame
        · exact (hearly _ hafter).before hfounded hallowed
      rw [slotHistory_append]
      exact execute_mirrors before allowed single does hbefore hid (ih hbefore)

end Step

/-! ## The life cycle of a slot -/

section LifeCycle

variable {da : Bool}

/-- A registry of an open model carries out every call for a type of the model. -/
theorem Session.carries_out (hsession : Session steps w) (hopen : IsOpen [] steps c)
    (htarget : c.target? = some (reg, owner, op)) (hm : w.model? reg.model = some m)
    (hfree : m.settings.readOnly = false) (howner : owner.model = m.id) :
    ∃ w' o, w.execute c = some (w', .ok o) := by
  obtain ⟨n, w', a, hn, _, hdoes, hrefuses⟩ := Session.refusals hsession hopen htarget
  obtain rfl : m = n := Option.some.inj (hm.symm.trans hn)
  cases a with
  | ok o => exact ⟨w', o, hdoes⟩
  | error x =>
      obtain ⟨_, ⟨hforeign, _⟩ | ⟨_, hfinal, _⟩⟩ := hrefuses x rfl
      · exact absurd howner hforeign
      · rw [hfree] at hfinal
        cases hfinal

theorem slot?_eq_declared (hm : w.model? reg.model = some m) (howner : owner.model = m.id)
    (op : Operation) : w.slot? reg ⟨owner.id, op⟩ =
      (m.declared? reg.id owner op).map fun i => ⟨reg.model, i⟩ := by
  rw [slot?, hm, Option.bind_some, Model.declared?_eq_get? howner]

theorem slotSource?_removed {s : Source} (hm : w.model? reg.model = some m)
    (howner : owner.model = m.id) (slot : Slot) :
    (w.setModel reg.model (m.apply (.vacate reg.id owner op s))).slotSource? reg slot =
      if slot = ⟨owner.id, op⟩ then none else w.slotSource? reg slot := by
  rw [slotSource?_setModel hm fun _ _ => Model.slotSource?_vacate howner]
  simp only [true_and]

/-- The life cycle of the slots of a registry of the model `m`, told by their history: which source
they have, what a removal does to them, and that a handle does nothing to them. -/
structure LifeCycle (steps : List Step) (w : Workspace) (reg : RegistryRef) (m : Model) :
    Prop where
  unset : ∀ owner op, owner.model = m.id →
    (m.declaredSource? reg.id owner op = none ↔ slotHistory m reg steps ⟨owner.id, op⟩ = [])
  strongest : ∀ owner op s, owner.model = m.id →
    (m.declaredSource? reg.id owner op = some s ↔
      s ∈ slotHistory m reg steps ⟨owner.id, op⟩ ∧
        ∀ t ∈ slotHistory m reg steps ⟨owner.id, op⟩, t ≤ s)
  remove : ∀ owner op, owner.model = m.id → IsOpen [] steps (.remove reg owner op) →
    ∃ w', w.execute (.remove reg owner op) =
        some (w', .ok (.procedure (w.slot? reg ⟨owner.id, op⟩))) ∧
      ∀ slot, w'.slotSource? reg slot =
        if slot = ⟨owner.id, op⟩ then none else w.slotSource? reg slot
  removeConvention : ∀ owner op da, owner.model = m.id →
    IsOpen [] steps (.removeConvention reg owner op da) →
    ∃ w' o, w.execute (.removeConvention reg owner op da) = some (w', .ok o) ∧
      if slotHistory m reg steps ⟨owner.id, op⟩ ≠ [] ∧
          ∀ t ∈ slotHistory m reg steps ⟨owner.id, op⟩, t ≤ .ofConvention da then
        o = .procedure (w.slot? reg ⟨owner.id, op⟩) ∧
          ∀ slot, w'.slotSource? reg slot =
            if slot = ⟨owner.id, op⟩ then none else w.slotSource? reg slot
      else o = .procedure none ∧ w' = w
  handle : ∀ c ref w' a, IsOpen [] steps c → c.handle? = some ref → w.execute c = some (w', a) →
    ∀ slot, w'.slotSource? reg slot = w.slotSource? reg slot

/-- What a removal by convention does to a slot with the history `sources`. -/
theorem Session.removeConvention_empties {sources : List Source} (hsession : Session steps w)
    (hopen : IsOpen [] steps (.removeConvention reg owner op da))
    (hm : w.model? reg.model = some m) (hfree : m.settings.readOnly = false)
    (howner : owner.model = m.id)
    (hsource : m.declaredSource? reg.id owner op = ProcedureMapping.strongest sources) :
    ∃ w' o, w.execute (.removeConvention reg owner op da) = some (w', .ok o) ∧
      if sources ≠ [] ∧ ∀ t ∈ sources, t ≤ .ofConvention da then
        o = .procedure (w.slot? reg ⟨owner.id, op⟩) ∧
          ∀ slot, w'.slotSource? reg slot =
            if slot = ⟨owner.id, op⟩ then none else w.slotSource? reg slot
      else o = .procedure none ∧ w' = w := by
  obtain ⟨w', o, hdoes⟩ := Session.carries_out hsession hopen rfl hm hfree howner
  refine ⟨w', o, hdoes, ?_⟩
  obtain ⟨n, hn, hdone⟩ := execute_removeConvention hdoes
  obtain rfl : m = n := Option.some.inj (hm.symm.trans hn)
  rw [hsource] at hdone
  rcases hdone with ⟨recorded, htop, hle, rfl, rfl⟩ | ⟨hkept, rfl, rfl⟩
  · rw [if_pos (exists_strongest_le_iff.1 ⟨recorded, htop, hle⟩), slot?_eq_declared hm howner]
    exact ⟨rfl, slotSource?_removed hm howner⟩
  · have hnever : ¬ (sources ≠ [] ∧ ∀ t ∈ sources, t ≤ .ofConvention da) := by
      intro hover
      obtain ⟨top, htop, hle⟩ := exists_strongest_le_iff.2 hover
      exact hkept top htop hle
    rw [if_neg hnever]
    exact ⟨rfl, rfl⟩

/-- **The life cycle of a slot** of a registry whose model is not finalized. -/
theorem slot_life_cycle (hsession : Session steps w) (hm : w.model? reg.model = some m)
    (hfree : m.settings.readOnly = false) : LifeCycle steps w reg m := by
  have hid : m.id = reg.model := Session.numbered hsession _ m hm
  have hearly : ∀ n, w.model? reg.model = some n → n.Early m := by
    intro n hn
    obtain rfl : m = n := Option.some.inj (hm.symm.trans hn)
    exact Model.early_refl hfree
  have hmirrors := Session.mirrors hsession hearly hid
  have hsource : ∀ owner op, owner.model = m.id → m.declaredSource? reg.id owner op =
      ProcedureMapping.strongest (slotHistory m reg steps ⟨owner.id, op⟩) := by
    intro owner op howner
    rw [Model.declaredSource?_eq howner, ← hmirrors, slotSource?_eq hm]
  refine ⟨?_, ?_, ?_, ?_, ?_⟩
  · intro owner op howner
    rw [hsource owner op howner, strongest_eq_none_iff]
  · intro owner op s howner
    rw [hsource owner op howner, strongest_eq_some_iff]
  · intro owner op howner hopen
    obtain ⟨w', o, hdoes⟩ := Session.carries_out hsession hopen rfl hm hfree howner
    obtain ⟨n, hn, rfl, rfl⟩ := execute_remove hdoes
    obtain rfl : m = n := Option.some.inj (hm.symm.trans hn)
    rw [slot?_eq_declared hm howner]
    exact ⟨_, hdoes, slotSource?_removed hm howner⟩
  · intro owner op da howner hopen
    exact Session.removeConvention_empties hsession hopen hm hfree howner
      (hsource owner op howner)
  · intro c ref w' a hopen hhandle hdoes slot
    have hsingle : c.isSingle = true ∧ c.target? = none := by
      cases c with
      | configure | suggest | suggestSignature | write | bindSignature | restamp => exact ⟨rfl, rfl⟩
      | _ => cases hhandle
    exact (execute_effect hsingle.1 hdoes).slotSource? hopen.1 hsingle.2 reg slot

/-- Conventions on a type and on one derived from it, which share the slot of the former until it
is emptied. -/
def conventional : List Step × Workspace :=
  (carryOn (IsOpen []) [] .empty
    [.createModel .standard, .addType 0 "Animal" none,
      .addType 0 "Lion" (some ⟨0, 0, "Animal"⟩), .createRegistry 0,
      .setConvention ⟨0, 0⟩ 0 ⟨0, 0, "Animal"⟩ .insert false,
      .setConvention ⟨0, 0⟩ 0 ⟨0, 1, "Lion"⟩ .insert true,
      .removeConvention ⟨0, 0⟩ ⟨0, 0, "Animal"⟩ .insert false]).get rfl

/-- The data annotation on the derived type keeps the weaker convention from emptying the slot. -/
theorem slot_life_cycle_conventional :
    (conventional.2.model? 0).map (fun m => m.settings.readOnly) = some false ∧
    (∀ m, conventional.2.model? 0 = some m → LifeCycle conventional.1 conventional.2 ⟨0, 0⟩ m) ∧
    (conventional.2.model? 0).map (fun m => slotHistory m ⟨0, 0⟩ conventional.1 ⟨0, .insert⟩) =
      some [.convention, .annotated] := by
  have hsession : Session conventional.1 conventional.2 :=
    Run.carryOn .nil (Option.some_get rfl).symm
  refine ⟨rfl, ?_, rfl⟩
  intro m hm
  have hfree : m.settings.readOnly = false := by
    cases hm
    rfl
  exact slot_life_cycle hsession hm hfree

end LifeCycle

end Workspace

end ProcedureMapping
