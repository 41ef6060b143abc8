import ProcedureMapping.Proofs.Contributions

/-!
# Contributions in another order

The contributions to one operation of the types of a model, made to an empty registry in any order,
are all carried out.  What look-up finds afterwards is what their history tells, so it depends on
the order unless the contributions are settled: a convention on a derived type that comes before
every contribution to its root leaves a procedure of its own behind, and this one hides what the
root is mapped to later.

Main statements:

* `found?_eq` — look-up finds what the history tells;
* `carryOut_mirrors` — contributions are carried out;
* `contributions_commute_iff` — when the order does not matter, and what is found then.
-/

namespace ProcedureMapping

/-- The call that makes a contribution, along the hierarchy of the registry's own model. -/
def Contribution.command (reg : RegistryRef) (op : Operation) : Contribution → Command
  | explicit owner => .set reg owner op
  | convention owner byAttribute => .setConvention reg reg.model owner op byAttribute

namespace Model

/-- Whether two models have the same types and the same settings. -/
structure Alike (n m : Model) : Prop where
  id : n.id = m.id
  settings : n.settings = m.settings
  types : n.types = m.types

variable {m n : Model} {t : EntityRef} {op : Operation}

theorem alike_refl (m : Model) : m.Alike m := ⟨rfl, rfl, rfl⟩

theorem Alike.base? (h : n.Alike m) (t : EntityRef) : n.base? t = m.base? t :=
  base?_congr h.id h.types t

theorem Alike.root (h : n.Alike m) (t : EntityRef) : n.root t = m.root t :=
  climb_congr h.base? t.id t

theorem Alike.early (h : n.Alike m) (hfree : m.settings.readOnly = false) : n.Early m where
  id := h.id
  isOpen := by rw [h.settings, hfree]
  base? t _ := h.base? t
  root t _ := h.root t

theorem Alike.ref? (h : n.Alike m) (i : TypeId) : n.ref? i = m.ref? i := by
  rw [Model.ref?, Model.ref?, h.id, h.types]

/-- What a slot holds belongs to the type of the slot. -/
theorem owner_source_eq (hn : n.Sound) (ht : n.ref? t.id = some t) (r : RegistryId)
    (op : Operation) :
    (((n.registry r).get? ⟨t.id, op⟩).bind (n.procedures[·]?)).map (fun p => (p.owner, p.source)) =
      (n.slotSource? r ⟨t.id, op⟩).map fun s => (t, s) := by
  unfold slotSource?
  cases hget : (n.registry r).get? ⟨t.id, op⟩ with
  | none => rfl
  | some i =>
      obtain ⟨p, hp, _, hid, _⟩ := hn.served r _ i hget
      have howner : p.owner = t := eq_of_id_eq (hn.owned i p hp) ht hid
      simp [hp, howner]

end Model

namespace Workspace

/-- The owner and the source of the procedure that serves a type. -/
def found? (w : Workspace) (reg : RegistryRef) (t : EntityRef) (op : Operation) :
    Option (EntityRef × Source) :=
  (w.model? reg.model).bind fun m =>
    ((m.lookup? reg.id m t op).bind (m.procedures[·]?)).map fun p => (p.owner, p.source)

/-- Make contributions to a registry, one after another, unless one is refused. -/
def carryOut (w : Workspace) (reg : RegistryRef) (op : Operation) :
    List Contribution → Option Workspace
  | [] => some w
  | c :: rest =>
      match w.execute (c.command reg op) with
      | some (w', .ok _) => w'.carryOut reg op rest
      | _ => none

variable {w w' : Workspace} {reg : RegistryRef} {op : Operation} {h : History} {m n : Model}
  {c : Contribution} {cs : List Contribution} {t : EntityRef} {past : List Step}

/-- **Look-up finds what the history tells.** -/
theorem found?_eq (hsession : Session past w) (hn : w.model? reg.model = some n)
    (hw : w.Mirrors reg h) (ht : n.ref? t.id = some t) :
    w.found? reg t op = foundBy? n (fun t => strongest (h ⟨t.id, op⟩)) t := by
  have hsound : n.Sound := Session.sound hsession _ n hn
  have hmodel : t.model = n.id := by
    obtain ⟨_, _, heq⟩ := Model.ref?_eq_some_iff.1 ht
    rw [← heq]
  have hslot : ∀ u, n.ref? u.id = some u →
      (((n.registry reg.id).get? ⟨u.id, op⟩).bind (n.procedures[·]?)).map
        (fun p => (p.owner, p.source)) = (strongest (h ⟨u.id, op⟩)).map fun s => (u, s) := by
    intro u hu
    rw [Model.owner_source_eq hsound hu, ← hw, slotSource?_eq hn]
  have hroot := hslot (n.root t) (Model.ref?_root ht)
  have hown := hslot t ht
  rw [found?, hn, Option.bind_some, foundBy?, Model.lookup?, if_pos hmodel]
  cases hget : (n.registry reg.id).get? ⟨t.id, op⟩ with
  | some i =>
      rw [hget] at hown
      cases htop : strongest (h ⟨t.id, op⟩) with
      | none =>
          have htaken : n.taken reg.id ⟨t.id, op⟩ = true := by rw [Model.taken, hget]; rfl
          rw [← Model.slotSource?_isSome hsound, ← slotSource?_eq hn, hw, htop] at htaken
          cases htaken
      | some s =>
          rw [htop] at hown
          exact hown
  | none =>
      rw [hget] at hown
      cases htop : strongest (h ⟨t.id, op⟩) with
      | some s =>
          rw [htop] at hown
          cases hown
      | none =>
          cases hbase : n.base? t with
          | none => rfl
          | some b => exact hroot

/-! ## Carrying contributions out -/

/-- A contribution leaves the types and the settings of every model alone. -/
theorem Effect.alike {i : ModelId} (heffect : w.Effect (c.command reg op) w')
    (hn : w.model? i = some n) (halike : n.Alike m) :
    ∃ n', w'.model? i = some n' ∧ n'.Alike m := by
  rcases heffect.model_after hn with hsame | ⟨e, hmakes, _, hafter⟩
  · exact ⟨n, hsame, halike⟩
  · have hkept : (n.apply e).settings = n.settings ∧ (n.apply e).types = n.types := by
      cases c <;> cases hmakes <;> exact ⟨rfl, rfl⟩
    exact ⟨n.apply e, hafter, ⟨by rw [n.id_apply, halike.id], by rw [hkept.1, halike.settings],
      by rw [hkept.2, halike.types]⟩⟩

theorem after_command (hid : m.id = reg.model) (howner : c.owner.model = m.id) :
    h.after m reg (c.command reg op) = h.contribute m op c := by
  cases c with
  | explicit owner => exact if_pos ⟨rfl, howner⟩
  | convention owner da =>
      have htaken : h.after m reg (.setConvention reg reg.model owner op da) =
          h.extend (if reg.model = m.id then m.slotFor h.taken owner op else ⟨owner.id, op⟩)
            (.ofConvention da) := if_pos ⟨rfl, howner⟩
      rw [if_pos hid.symm] at htaken
      exact htaken

/-- Whether a session can make contributions: it was handed the registry, the model and the types
that they are about, and these are types of the model. -/
structure Ready (past : List Step) (reg : RegistryRef) (m : Model) (cs : List Contribution) :
    Prop where
  registry : Gave past (.registry reg)
  model : Gave past (.model reg.model)
  owner : ∀ c ∈ cs, Gave past (.type c.owner) ∧ c.owner.model = m.id

theorem Ready.isOpen (hready : Ready past reg m cs) (hc : c ∈ cs) (op : Operation) :
    IsOpen [] past (c.command reg op) := by
  have howner := (hready.owner c hc).1
  cases c with
  | explicit owner => exact ⟨rfl, hready.registry, howner⟩
  | convention owner da => exact ⟨rfl, hready.registry, howner, hready.model⟩

theorem Ready.later (hready : Ready past reg m (c :: cs)) (more : List Step) :
    Ready (past ++ more) reg m cs where
  registry := gave_append.2 (.inl hready.registry)
  model := gave_append.2 (.inl hready.model)
  owner c' hc' := by
    obtain ⟨hgave, hmodel⟩ := hready.owner c' (List.mem_cons_of_mem c hc')
    exact ⟨gave_append.2 (.inl hgave), hmodel⟩

/-- **Contributions are carried out**, and the registry mirrors them. -/
theorem carryOut_mirrors (op : Operation) (hsession : Session past w)
    (hready : Ready past reg m cs)
    (hn : w.model? reg.model = some n) (halike : n.Alike m)
    (hfree : m.settings.readOnly = false) (hw : w.Mirrors reg h) :
    ∃ w' n' past', w.carryOut reg op cs = some w' ∧ Session past' w' ∧
      w'.model? reg.model = some n' ∧ n'.Alike m ∧
      w'.Mirrors reg (cs.foldl (History.contribute m op) h) := by
  induction cs generalizing past w n h with
  | nil => exact ⟨w, n, past, rfl, hsession, hn, halike, hw⟩
  | cons c cs ih =>
      have hopen := hready.isOpen (List.mem_cons_self) op
      obtain ⟨_, howner⟩ := hready.owner c List.mem_cons_self
      have hnid : n.id = reg.model := Session.numbered hsession _ n hn
      have hmid : m.id = reg.model := by rw [← halike.id, hnid]
      have hsingle : (c.command reg op).isSingle = true := by cases c <;> rfl
      have htarget : (c.command reg op).target? = some (reg, c.owner, op) := by cases c <;> rfl
      have hnfree : n.settings.readOnly = false := by rw [halike.settings, hfree]
      obtain ⟨w₁, o, hdoes⟩ := Session.carries_out hsession hopen htarget hn hnfree
        (howner.trans halike.id.symm)
      obtain ⟨n₁, hn₁, halike₁⟩ := (execute_effect hsingle hdoes).alike hn halike
      have hearly : ∀ n', w.model? reg.model = some n' → n'.Early m := by
        intro n' hn'
        obtain rfl : n = n' := Option.some.inj (hn.symm.trans hn')
        exact halike.early hfree
      have hw₁ : w₁.Mirrors reg (h.contribute m op c) := by
        rw [← after_command hmid howner]
        exact execute_mirrors hsession hopen hsingle hdoes hearly hmid hw
      obtain ⟨w', n', past', hdone, hrest⟩ :=
        ih (.snoc hsession hsingle hopen hdoes) (hready.later _) hn₁ halike₁ hw₁
      refine ⟨w', n', past', ?_, hrest⟩
      rw [carryOut, hdoes]
      exact hdone

/-- What is found after contributions to an empty registry. -/
theorem foundAfter_eq (hsession : Session past w) (hready : Ready past reg m cs)
    (hm : w.model? reg.model = some m) (hfree : m.settings.readOnly = false)
    (hempty : ∀ slot, w.slot? reg slot = none) :
    ∃ w', w.carryOut reg op cs = some w' ∧
      ∀ t, m.ref? t.id = some t → w'.found? reg t op = foundAfter? m op cs t := by
  have hw : w.Mirrors reg .empty := by
    intro slot
    have hfree := hempty slot
    rw [slot?, hm, Option.bind_some, Option.map_eq_none_iff] at hfree
    rw [slotSource?_eq hm, Model.slotSource?, hfree]
    rfl
  obtain ⟨w', n', past', hdone, hsession', hn', halike, hw'⟩ :=
    carryOut_mirrors op hsession hready hm ⟨rfl, rfl, rfl⟩ hfree hw
  refine ⟨w', hdone, ?_⟩
  intro t ht
  have hbase : n'.base? t = m.base? t := Model.base?_congr halike.id halike.types t
  have hroot : n'.root t = m.root t :=
    Model.climb_congr (Model.base?_congr halike.id halike.types) t.id t
  have ht' : n'.ref? t.id = some t := (halike.ref? t.id).trans ht
  rw [found?_eq hsession' hn' hw' ht', foundAfter?, foundBy?, foundBy?, hbase, hroot]
  rfl

/-- What contributions to an empty registry come to, in whatever order they are made. -/
structure Orders (w : Workspace) (reg : RegistryRef) (op : Operation) (m : Model)
    (cs : List Contribution) : Prop where
  carried : ∀ cs' : List Contribution, cs'.Perm cs → (w.carryOut reg op cs').isSome = true
  own_iff : ∀ (cs' : List Contribution) t, cs'.Perm cs → m.ref? t.id = some t →
    (m.base? t).isSome = true →
    ((∃ s, (w.carryOut reg op cs').bind (·.found? reg t op) = some (t, s)) ↔
      .explicit t ∈ cs' ∨
        ∃ pre c post, cs' = pre ++ c :: post ∧ c.owner = t ∧ ∀ c' ∈ pre, c'.owner ≠ m.root t)
  settled : Settled m cs → ∀ (cs' : List Contribution) t, cs'.Perm cs → m.ref? t.id = some t →
    (w.carryOut reg op cs').bind (·.found? reg t op) = settledFor? m cs t
  commute_iff : (∀ cs₁ cs₂ : List Contribution, cs₁.Perm cs → cs₂.Perm cs →
      ∀ t, m.ref? t.id = some t →
        (w.carryOut reg op cs₁).bind (·.found? reg t op) =
          (w.carryOut reg op cs₂).bind (·.found? reg t op)) ↔
    Settled m cs

/-- **The order of contributions does not matter** exactly where they are settled. -/
theorem contributions_commute_iff (hsession : Session past w) (hready : Ready past reg m cs)
    (hm : w.model? reg.model = some m) (hfree : m.settings.readOnly = false)
    (hempty : ∀ slot, w.slot? reg slot = none) : Orders w reg op m cs := by
  have hid : m.id = reg.model := Session.numbered hsession _ m hm
  have hfounded : m.Founded := Session.founded hsession _ m hm
  have hheld : Held m cs := by
    intro c hc
    obtain ⟨hgave, howner⟩ := hready.owner c hc
    exact (Session.target_good hsession hready.registry hgave hm howner).1
  have hdone : ∀ {cs' : List Contribution}, cs'.Perm cs → ∃ w', w.carryOut reg op cs' = some w' ∧
      ∀ t, m.ref? t.id = some t → w'.found? reg t op = foundAfter? m op cs' t := by
    intro cs' hperm
    have hready' : Ready past reg m cs' :=
      ⟨hready.registry, hready.model, fun c hc => hready.owner c (hperm.mem_iff.1 hc)⟩
    exact foundAfter_eq hsession hready' hm hfree hempty
  have hfound : ∀ {cs' : List Contribution} {t : EntityRef}, cs'.Perm cs →
      m.ref? t.id = some t →
      (w.carryOut reg op cs').bind (·.found? reg t op) = foundAfter? m op cs' t := by
    intro cs' t hperm ht
    obtain ⟨w', hw', hall⟩ := hdone hperm
    rw [hw', Option.bind_some, hall t ht]
  refine ⟨?_, ?_, ?_, ?_⟩
  · intro cs' hperm
    obtain ⟨w', hw', _⟩ := hdone hperm
    rw [hw']
    rfl
  · intro cs' t hperm ht hbase
    rw [hfound hperm ht, foundAfter?_own_iff hfounded ht hbase,
      taken_derived_iff hfounded (hheld.of_subset hperm.subset) ht hbase]
  · intro hsettled cs' t hperm ht
    have hheld' : Held m cs' := hheld.of_subset hperm.subset
    rw [hfound hperm ht, foundAfter?_of_settled hfounded hheld' (hsettled.perm hperm) ht,
      settledFor?_perm hperm]
  · rw [← commute_iff_settled op hfounded hheld]
    constructor
    · intro hcommute cs₁ cs₂ hperm₁ hperm₂ t ht
      rw [← hfound hperm₁ ht, ← hfound hperm₂ ht]
      exact hcommute cs₁ cs₂ hperm₁ hperm₂ t ht
    · intro hcommute cs₁ cs₂ hperm₁ hperm₂ t ht
      rw [hfound hperm₁ ht, hfound hperm₂ ht]
      exact hcommute cs₁ cs₂ hperm₁ hperm₂ t ht

/-- A root type, a type derived from it, and an empty registry. -/
def lineage : List Step × Workspace :=
  (carryOn (IsOpen []) [] .empty
    [.createModel .standard, .addType 0 "Animal" none,
      .addType 0 "Lion" (some ⟨0, 0, "Animal"⟩), .createRegistry 0]).get rfl

/-- A convention on the derived type and an explicit call on the root can be made in two orders, and
these are what the theorem says of them. -/
theorem contributions_commute_iff_lineage :
    Orders lineage.2 ⟨0, 0⟩ .insert ((lineage.2.model? 0).get rfl)
      [.convention ⟨0, 1, "Lion"⟩ false, .explicit ⟨0, 0, "Animal"⟩] := by
  have hsession : Session lineage.1 lineage.2 := Run.carryOn .nil (Option.some_get rfl).symm
  refine contributions_commute_iff hsession ⟨by decide, by decide, ?_⟩ rfl rfl (fun _ => rfl)
  intro c hc
  simp only [List.mem_cons, List.not_mem_nil, or_false] at hc
  rcases hc with rfl | rfl
  · exact ⟨by decide, rfl⟩
  · exact ⟨by decide, rfl⟩

/-- **A convention hides the root's mapping** when it comes first: the derived type is then served
by a procedure of its own, at the convention's source. -/
theorem convention_hides_root :
    (lineage.2.carryOut ⟨0, 0⟩ .insert
        [.convention ⟨0, 1, "Lion"⟩ false, .explicit ⟨0, 0, "Animal"⟩]).bind
      (·.found? ⟨0, 0⟩ ⟨0, 1, "Lion"⟩ .insert) = some (⟨0, 1, "Lion"⟩, .convention) ∧
    (lineage.2.carryOut ⟨0, 0⟩ .insert
        [.explicit ⟨0, 0, "Animal"⟩, .convention ⟨0, 1, "Lion"⟩ false]).bind
      (·.found? ⟨0, 0⟩ ⟨0, 1, "Lion"⟩ .insert) = some (⟨0, 0, "Animal"⟩, .explicit) :=
  ⟨rfl, rfl⟩

end Workspace

end ProcedureMapping
