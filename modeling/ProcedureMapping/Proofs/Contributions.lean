import ProcedureMapping.Proofs.LifeCycle

/-!
# Contributions to a hierarchy

An operation of the types of a hierarchy is contributed to a registry by explicit calls and by
conventions.  What look-up finds for a type afterwards is the type's own slot, or else the slot of
its root.

A convention on a derived type goes to the slot of the root only if that is taken **before** and the
type's own is not; otherwise it takes the type's own slot, where it hides whatever the root is
mapped to.  So the order of the contributions counts.  It does not exactly where the contributions
are **settled**: each convention on a derived type whose root is contributed to is covered, by an
explicit call on the derived type and by a contribution to the root that is at least as strong.

Main statements:

* `taken_root_iff`, `taken_derived_iff` — which slots are taken in the end;
* `strongest_of_settled` — where they are settled, only the contributions to a type itself count;
* `settled_of_commute` — otherwise two orders end differently.
-/

namespace ProcedureMapping

/-- A contribution of an operation of a type. -/
inductive Contribution where
  | explicit (owner : EntityRef)
  | convention (owner : EntityRef) (byAttribute : Bool)
  deriving DecidableEq

namespace Contribution

def owner : Contribution → EntityRef
  | explicit owner | convention owner _ => owner

def source : Contribution → Source
  | explicit _ => .explicit
  | convention _ byAttribute => .ofConvention byAttribute

def isConvention : Contribution → Bool
  | explicit _ => false
  | convention .. => true

/-- The slot that a contribution takes, along the hierarchy of `m`. -/
def slot (m : Model) (op : Operation) (taken : Slot → Bool) : Contribution → Slot
  | explicit owner => ⟨owner.id, op⟩
  | convention owner _ => m.slotFor taken owner op

end Contribution

/-- The history after one more contribution. -/
def History.contribute (m : Model) (op : Operation) (h : History) (c : Contribution) : History :=
  h.extend (c.slot m op h.taken) c.source

/-- The history of some contributions, one after another. -/
def contributed (m : Model) (op : Operation) (cs : List Contribution) : History :=
  cs.foldl (History.contribute m op) .empty

/-- Whether a contribution goes to the root of its type. -/
def Inherits (m : Model) (op : Operation) (h : History) (c : Contribution) : Prop :=
  c.isConvention = true ∧ (m.base? c.owner).isSome = true ∧
    h.taken ⟨c.owner.id, op⟩ = false ∧ h.taken ⟨(m.root c.owner).id, op⟩ = true

/-- Whether contributions are to types of the model. -/
def Held (m : Model) (cs : List Contribution) : Prop :=
  ∀ c ∈ cs, m.ref? c.owner.id = some c.owner

variable {m : Model} {op : Operation} {h : History} {c : Contribution}
  {cs pre post : List Contribution} {t : EntityRef} {s : Source} {slot : Slot}

theorem Held.of_subset {cs' : List Contribution} (hheld : Held m cs) (hsub : cs' ⊆ cs) :
    Held m cs' :=
  fun c hc => hheld c (hsub hc)

/-! ## The slot of a contribution -/

theorem slot_of_inherits (hinherits : Inherits m op h c) :
    c.slot m op h.taken = ⟨(m.root c.owner).id, op⟩ := by
  obtain ⟨hconvention, hbase, hown, hroot⟩ := hinherits
  cases c with
  | explicit owner => cases hconvention
  | convention owner da =>
      obtain ⟨b, hb⟩ := Option.isSome_iff_exists.1 hbase
      simp only [Contribution.owner] at hb hown hroot ⊢
      simp [Contribution.slot, Model.slotFor, hb, hown, hroot]

theorem slot_of_not_inherits (hinherits : ¬ Inherits m op h c) :
    c.slot m op h.taken = ⟨c.owner.id, op⟩ := by
  cases c with
  | explicit owner => rfl
  | convention owner da =>
      have hfree : ∀ b, m.base? owner = some b → h.taken ⟨owner.id, op⟩ = false →
          h.taken ⟨(m.root owner).id, op⟩ = false := by
        intro b hb hown
        rw [Bool.eq_false_iff]
        intro hroot
        exact hinherits ⟨rfl, by rw [Contribution.owner, hb]; rfl, hown, hroot⟩
      rw [Contribution.slot, Contribution.owner, Model.slotFor]
      split
      · rfl
      · next hown =>
          split
          · next b hb => rw [hfree b hb (Bool.eq_false_iff.2 hown)]; rfl
          · rfl

theorem not_inherits_of_root (hroot : m.base? c.owner = none) : ¬ Inherits m op h c := by
  rintro ⟨_, hbase, _⟩
  rw [hroot] at hbase
  cases hbase

theorem not_inherits_explicit (owner : EntityRef) : ¬ Inherits m op h (.explicit owner) := by
  rintro ⟨hconvention, _⟩
  cases hconvention

/-! ## What is in a slot in the end -/

theorem History.taken_iff : h.taken slot = true ↔ ∃ s, s ∈ h slot := by
  unfold History.taken
  cases h slot with
  | nil => simp
  | cons s rest => simp

@[simp] theorem contributed_append :
    contributed m op (cs ++ [c]) = (contributed m op cs).contribute m op c := by
  simp [contributed, List.foldl_append]

theorem mem_contribute : s ∈ h.contribute m op c slot ↔
    s ∈ h slot ∨ slot = c.slot m op h.taken ∧ s = c.source := by
  unfold History.contribute History.extend
  by_cases hslot : slot = c.slot m op h.taken
  · rw [if_pos hslot, ← hslot]
    simp
  · rw [if_neg hslot]
    simp [hslot]

/-- What is in a slot stays there. -/
theorem mem_contributed_append (hs : s ∈ contributed m op pre slot) (post : List Contribution) :
    s ∈ contributed m op (pre ++ post) slot := by
  induction post using List.reverseRecOn with
  | nil => simpa using hs
  | append_singleton post c ih =>
      rw [← List.append_assoc, contributed_append, mem_contribute]
      exact .inl ih

/-- A contribution is in the slot that it took. -/
theorem mem_contributed_slot (pre post : List Contribution) (c : Contribution) :
    c.source ∈ contributed m op (pre ++ c :: post) (c.slot m op (contributed m op pre).taken) := by
  have hlast : c.source ∈ contributed m op (pre ++ [c])
      (c.slot m op (contributed m op pre).taken) := by
    rw [contributed_append, mem_contribute]
    exact .inr ⟨rfl, rfl⟩
  simpa using mem_contributed_append hlast post

/-- A contribution that does not go to the root is in the slot of its own type. -/
theorem mem_contributed_own (hinherits : ¬ Inherits m op (contributed m op pre) c)
    (post : List Contribution) :
    c.source ∈ contributed m op (pre ++ c :: post) ⟨c.owner.id, op⟩ := by
  rw [← slot_of_not_inherits hinherits]
  exact mem_contributed_slot pre post c

/-- What is in the slot of a type was contributed to the type, or it is a convention on a type that
is derived from it. -/
theorem exists_of_mem_contributed (hheld : Held m cs) (ht : m.ref? t.id = some t)
    (hs : s ∈ contributed m op cs ⟨t.id, op⟩) :
    ∃ c ∈ cs, c.source = s ∧ (c.owner = t ∨
      c.isConvention = true ∧ (m.base? c.owner).isSome = true ∧ m.root c.owner = t) := by
  induction cs using List.reverseRecOn with
  | nil => cases hs
  | append_singleton cs c ih =>
      have hheld' : Held m cs := hheld.of_subset (List.subset_append_left cs [c])
      have howner : m.ref? c.owner.id = some c.owner := hheld c (by simp)
      rw [contributed_append, mem_contribute] at hs
      rcases hs with hold | ⟨hslot, hsource⟩
      · obtain ⟨c', hc', hfrom⟩ := ih hheld' hold
        exact ⟨c', List.mem_append_left _ hc', hfrom⟩
      · refine ⟨c, by simp, hsource.symm, ?_⟩
        by_cases hinherits : Inherits m op (contributed m op cs) c
        · rw [slot_of_inherits hinherits] at hslot
          have hroot : t = m.root c.owner :=
            Model.eq_of_id_eq ht (Model.ref?_root howner) (Slot.mk.inj hslot).1
          exact .inr ⟨hinherits.1, hinherits.2.1, hroot.symm⟩
        · rw [slot_of_not_inherits hinherits] at hslot
          exact .inl (Model.eq_of_id_eq ht howner (Slot.mk.inj hslot).1).symm

/-- **The slot of a root** is taken when something is contributed to the root. -/
theorem taken_root_iff (hheld : Held m cs) (ht : m.ref? t.id = some t)
    (hroot : m.base? t = none) :
    (contributed m op cs).taken ⟨t.id, op⟩ = true ↔ ∃ c ∈ cs, c.owner = t := by
  constructor
  · induction cs using List.reverseRecOn with
    | nil =>
        intro htaken
        cases htaken
    | append_singleton cs c ih =>
        have hheld' : Held m cs := hheld.of_subset (List.subset_append_left cs [c])
        have howner : m.ref? c.owner.id = some c.owner := hheld c (by simp)
        have hbefore : (contributed m op cs).taken ⟨t.id, op⟩ = true →
            ∃ c' ∈ cs ++ [c], c'.owner = t := by
          intro htaken
          obtain ⟨c', hc', howner'⟩ := ih hheld' htaken
          exact ⟨c', List.mem_append_left _ hc', howner'⟩
        intro htaken
        obtain ⟨s, hs⟩ := History.taken_iff.1 htaken
        rw [contributed_append, mem_contribute] at hs
        rcases hs with hold | ⟨hslot, _⟩
        · exact hbefore (History.taken_iff.2 ⟨s, hold⟩)
        · by_cases hinherits : Inherits m op (contributed m op cs) c
          · -- A convention goes to a root only where that is taken already.
            rw [slot_of_inherits hinherits] at hslot
            apply hbefore
            rw [hslot]
            exact hinherits.2.2.2
          · rw [slot_of_not_inherits hinherits] at hslot
            exact ⟨c, by simp, (Model.eq_of_id_eq ht howner (Slot.mk.inj hslot).1).symm⟩
  · rintro ⟨c, hc, rfl⟩
    obtain ⟨pre, post, rfl⟩ := List.append_of_mem hc
    exact History.taken_iff.2 ⟨_, mem_contributed_own (not_inherits_of_root hroot) post⟩

/-- What takes the slot of a derived type is contributed to it: no other type has it as its root. -/
theorem takes_derived (hm : m.Founded) (howner : m.ref? c.owner.id = some c.owner)
    (ht : m.ref? t.id = some t) (hbase : (m.base? t).isSome = true)
    (hslot : c.slot m op h.taken = ⟨t.id, op⟩) : c.owner = t ∧ ¬ Inherits m op h c := by
  by_cases hinherits : Inherits m op h c
  · rw [slot_of_inherits hinherits] at hslot
    have hsame : m.root c.owner = t :=
      Model.eq_of_id_eq (Model.ref?_root howner) ht (Slot.mk.inj hslot).1
    have hnone := hm.base?_root c.owner
    rw [hsame] at hnone
    rw [hnone] at hbase
    cases hbase
  · rw [slot_of_not_inherits hinherits] at hslot
    exact ⟨Model.eq_of_id_eq howner ht (Slot.mk.inj hslot).1, hinherits⟩

/-- **The slot of a derived type** is taken when the type is mapped explicitly, or when something
is contributed to it before anything is to its root. -/
theorem taken_derived_iff (hm : m.Founded) (hheld : Held m cs) (ht : m.ref? t.id = some t)
    (hbase : (m.base? t).isSome = true) :
    (contributed m op cs).taken ⟨t.id, op⟩ = true ↔ .explicit t ∈ cs ∨
      ∃ pre c post, cs = pre ++ c :: post ∧ c.owner = t ∧ ∀ c' ∈ pre, c'.owner ≠ m.root t := by
  have hroot : m.base? (m.root t) = none := hm.base?_root t
  have hrooted : m.ref? (m.root t).id = some (m.root t) := Model.ref?_root ht
  constructor
  · induction cs using List.reverseRecOn with
    | nil =>
        intro htaken
        cases htaken
    | append_singleton cs c ih =>
        have hheld' : Held m cs := hheld.of_subset (List.subset_append_left cs [c])
        have howner : m.ref? c.owner.id = some c.owner := hheld c (by simp)
        have hbefore : (contributed m op cs).taken ⟨t.id, op⟩ = true → .explicit t ∈ cs ++ [c] ∨
            ∃ pre c' post, cs ++ [c] = pre ++ c' :: post ∧ c'.owner = t ∧
              ∀ c' ∈ pre, c'.owner ≠ m.root t := by
          intro htaken
          rcases ih hheld' htaken with hexplicit | ⟨pre, c', post, rfl, hfirst⟩
          · exact .inl (List.mem_append_left _ hexplicit)
          · exact .inr ⟨pre, c', post ++ [c], by simp, hfirst⟩
        intro htaken
        obtain ⟨s, hs⟩ := History.taken_iff.1 htaken
        rw [contributed_append, mem_contribute] at hs
        rcases hs with hold | ⟨hslot, _⟩
        · exact hbefore (History.taken_iff.2 ⟨s, hold⟩)
        · by_cases hown : (contributed m op cs).taken ⟨t.id, op⟩ = true
          · exact hbefore hown
          · obtain ⟨hsame, hinherits⟩ := takes_derived hm howner ht hbase hslot.symm
            cases c with
            | explicit owner =>
                have hexplicit : owner = t := hsame
                exact .inl (by simp [hexplicit])
            | convention owner da =>
                refine .inr ⟨cs, .convention owner da, [], rfl, hsame, ?_⟩
                intro c' hc' hnamed
                have htaken' : (contributed m op cs).taken ⟨(m.root t).id, op⟩ = true :=
                  (taken_root_iff hheld' hrooted hroot).2 ⟨c', hc', hnamed⟩
                apply hinherits
                rw [Inherits, hsame]
                exact ⟨rfl, hbase, Bool.eq_false_iff.2 hown, htaken'⟩
  · intro hcause
    apply History.taken_iff.2
    rcases hcause with hexplicit | ⟨pre, c, post, rfl, rfl, hfirst⟩
    · obtain ⟨pre, post, rfl⟩ := List.append_of_mem hexplicit
      exact ⟨_, mem_contributed_own (not_inherits_explicit t) post⟩
    · refine ⟨_, mem_contributed_own ?_ post⟩
      rintro ⟨_, _, _, htaken⟩
      have hheld' : Held m pre := hheld.of_subset (List.subset_append_left pre _)
      obtain ⟨c', hc', hnamed⟩ := (taken_root_iff hheld' hrooted hroot).1 htaken
      exact hfirst c' hc' hnamed

/-! ## Settled contributions -/

/-- The sources of the contributions to a type. -/
def contributedTo (cs : List Contribution) (t : EntityRef) : List Source :=
  (cs.filter (·.owner = t)).map Contribution.source

theorem mem_contributedTo : s ∈ contributedTo cs t ↔ ∃ c ∈ cs, c.owner = t ∧ c.source = s := by
  simp [contributedTo, and_assoc]

/-- Whether each convention on a derived type whose root is contributed to is covered: by an
explicit call on the type, and by a contribution to the root that is at least as strong. -/
def Settled (m : Model) (cs : List Contribution) : Prop :=
  ∀ c ∈ cs, c.isConvention = true → (m.base? c.owner).isSome = true →
    (∃ r ∈ cs, r.owner = m.root c.owner) →
      .explicit c.owner ∈ cs ∧ ∃ r ∈ cs, r.owner = m.root c.owner ∧ c.source ≤ r.source

theorem strongest_congr {sources sources' : List Source} (hsub : ∀ s ∈ sources, s ∈ sources')
    (hle : ∀ s ∈ sources', ∃ t ∈ sources, s ≤ t) : strongest sources = strongest sources' := by
  cases htop : strongest sources with
  | none =>
      have hnil : sources = [] := strongest_eq_none_iff.1 htop
      have hnone : sources' = [] := by
        apply List.eq_nil_iff_forall_not_mem.2
        intro s hs
        obtain ⟨t, ht, _⟩ := hle s hs
        rw [hnil] at ht
        cases ht
      rw [hnone]
      rfl
  | some s =>
      obtain ⟨hs, hmax⟩ := strongest_eq_some_iff.1 htop
      refine (strongest_eq_some_iff.2 ⟨hsub s hs, ?_⟩).symm
      intro u hu
      obtain ⟨t, ht, hut⟩ := hle u hu
      exact Source.le_trans hut (hmax t ht)

theorem strongest_root_of_settled (hheld : Held m cs) (hsettled : Settled m cs)
    (ht : m.ref? t.id = some t) (hroot : m.base? t = none) :
    strongest (contributed m op cs ⟨t.id, op⟩) = strongest (contributedTo cs t) := by
  symm
  apply strongest_congr
  · intro s hs
    obtain ⟨c, hc, rfl, rfl⟩ := mem_contributedTo.1 hs
    obtain ⟨pre, post, rfl⟩ := List.append_of_mem hc
    exact mem_contributed_own (not_inherits_of_root hroot) post
  · intro s hs
    obtain ⟨c, hc, rfl, howner | ⟨hconvention, hderived, rfl⟩⟩ :=
      exists_of_mem_contributed hheld ht hs
    · exact ⟨c.source, mem_contributedTo.2 ⟨c, hc, howner, rfl⟩, Source.le_refl _⟩
    · -- A convention on a derived type does not exceed what is contributed to the root.
      have htaken := History.taken_iff.2 ⟨c.source, hs⟩
      have hnamed := (taken_root_iff hheld ht hroot).1 htaken
      obtain ⟨_, r, hr, hrowner, hle⟩ := hsettled c hc hconvention hderived hnamed
      exact ⟨r.source, mem_contributedTo.2 ⟨r, hr, hrowner, rfl⟩, hle⟩

theorem Settled.explicit_mem (hsettled : Settled m cs) (hc : c ∈ cs)
    (hderived : (m.base? c.owner).isSome = true) (hnamed : ∃ r ∈ cs, r.owner = m.root c.owner) :
    .explicit c.owner ∈ cs := by
  cases c with
  | explicit owner => exact hc
  | convention owner da => exact (hsettled _ hc rfl hderived hnamed).1

theorem strongest_derived_of_settled (hm : m.Founded) (hheld : Held m cs)
    (hsettled : Settled m cs) (ht : m.ref? t.id = some t) (hderived : (m.base? t).isSome = true) :
    strongest (contributed m op cs ⟨t.id, op⟩) = strongest (contributedTo cs t) := by
  apply strongest_congr
  · intro s hs
    obtain ⟨c, hc, hsource, howner | ⟨_, _, hroot⟩⟩ := exists_of_mem_contributed hheld ht hs
    · exact mem_contributedTo.2 ⟨c, hc, howner, hsource⟩
    · -- No other type has a derived one as its root.
      have hnone := hm.base?_root c.owner
      rw [hroot] at hnone
      rw [hnone] at hderived
      cases hderived
  · intro s hs
    obtain ⟨c, hc, rfl, rfl⟩ := mem_contributedTo.1 hs
    by_cases hnamed : ∃ r ∈ cs, r.owner = m.root c.owner
    · obtain ⟨pre, post, heq⟩ := List.append_of_mem (hsettled.explicit_mem hc hderived hnamed)
      refine ⟨.explicit, ?_, Source.le_explicit _⟩
      rw [heq]
      exact mem_contributed_own (not_inherits_explicit c.owner) post
    · obtain ⟨pre, post, rfl⟩ := List.append_of_mem hc
      refine ⟨c.source, mem_contributed_own ?_ post, Source.le_refl _⟩
      rintro ⟨_, _, _, htaken⟩
      have hheld' : Held m pre := hheld.of_subset (List.subset_append_left pre _)
      obtain ⟨r, hr, hrowner⟩ := (taken_root_iff hheld' (Model.ref?_root ht)
        (hm.base?_root _)).1 htaken
      exact hnamed ⟨r, List.mem_append_left _ hr, hrowner⟩

/-- **Where contributions are settled**, only those to a type itself count for its slot. -/
theorem strongest_of_settled (hm : m.Founded) (hheld : Held m cs) (hsettled : Settled m cs)
    (ht : m.ref? t.id = some t) :
    strongest (contributed m op cs ⟨t.id, op⟩) = strongest (contributedTo cs t) := by
  cases hbase : m.base? t with
  | none => exact strongest_root_of_settled hheld hsettled ht hbase
  | some b => exact strongest_derived_of_settled hm hheld hsettled ht (by rw [hbase]; rfl)

/-! ## What look-up finds -/

/-- What look-up finds for a type where `sources` tells the source of each type's own slot: the
type itself or else its root, with the source. -/
def foundBy? (m : Model) (sources : EntityRef → Option Source) (t : EntityRef) :
    Option (EntityRef × Source) :=
  match sources t with
  | some s => some (t, s)
  | none => (m.base? t).bind fun _ => (sources (m.root t)).map fun s => (m.root t, s)

/-- What look-up finds after some contributions. -/
def foundAfter? (m : Model) (op : Operation) (cs : List Contribution) (t : EntityRef) :
    Option (EntityRef × Source) :=
  foundBy? m (fun t => strongest (contributed m op cs ⟨t.id, op⟩)) t

/-- What is found where contributions are settled: the strongest of those to the type itself, or
else the strongest of those to its root. -/
def settledFor? (m : Model) (cs : List Contribution) (t : EntityRef) :
    Option (EntityRef × Source) :=
  foundBy? m (fun t => strongest (contributedTo cs t)) t

theorem foundAfter?_of_settled (hm : m.Founded) (hheld : Held m cs) (hsettled : Settled m cs)
    (ht : m.ref? t.id = some t) : foundAfter? m op cs t = settledFor? m cs t := by
  have hsources : ∀ u, m.ref? u.id = some u →
      strongest (contributed m op cs ⟨u.id, op⟩) = strongest (contributedTo cs u) :=
    fun u hu => strongest_of_settled hm hheld hsettled hu
  rw [foundAfter?, settledFor?, foundBy?, foundBy?, hsources t ht,
    hsources (m.root t) (Model.ref?_root ht)]

theorem Settled.perm {cs' : List Contribution} (hperm : cs'.Perm cs) (hsettled : Settled m cs) :
    Settled m cs' := by
  intro c hc hconvention hderived hnamed
  simp only [hperm.mem_iff] at hc hnamed ⊢
  exact hsettled c hc hconvention hderived hnamed

theorem settledFor?_perm {cs' : List Contribution} (hperm : cs'.Perm cs) (t : EntityRef) :
    settledFor? m cs' t = settledFor? m cs t := by
  have hsame : ∀ t, strongest (contributedTo cs' t) = strongest (contributedTo cs t) := by
    intro t
    have hmem : ∀ s, s ∈ contributedTo cs' t ↔ s ∈ contributedTo cs t := by
      intro s
      simp only [mem_contributedTo, hperm.mem_iff]
    apply strongest_congr
    · intro s hs
      exact (hmem s).1 hs
    · intro s hs
      exact ⟨s, (hmem s).2 hs, Source.le_refl s⟩
  rw [settledFor?, settledFor?, foundBy?, foundBy?, hsame t, hsame (m.root t)]

/-- A slot that is taken has a source. -/
theorem strongest_of_taken (htaken : h.taken slot = true) : ∃ s, strongest (h slot) = some s := by
  obtain ⟨s, hs⟩ := History.taken_iff.1 htaken
  cases htop : strongest (h slot) with
  | none =>
      rw [strongest_eq_none_iff.1 htop] at hs
      cases hs
  | some top => exact ⟨top, rfl⟩

theorem strongest_of_not_taken (htaken : h.taken slot = false) : strongest (h slot) = none := by
  rw [strongest_eq_none_iff]
  unfold History.taken at htaken
  simpa using htaken

/-- A derived type is found itself when its own slot is taken. -/
theorem foundAfter?_own_iff (hm : m.Founded) (ht : m.ref? t.id = some t)
    (hbase : (m.base? t).isSome = true) :
    (∃ s, foundAfter? m op cs t = some (t, s)) ↔
      (contributed m op cs).taken ⟨t.id, op⟩ = true := by
  obtain ⟨b, hb⟩ := Option.isSome_iff_exists.1 hbase
  rw [foundAfter?, foundBy?]
  constructor
  · rintro ⟨s, hfound⟩
    apply Classical.byContradiction
    intro hfree
    rw [strongest_of_not_taken (Bool.eq_false_iff.2 hfree)] at hfound
    obtain ⟨_, _, hroot⟩ := Option.bind_eq_some_iff.1 hfound
    obtain ⟨_, _, heq⟩ := Option.map_eq_some_iff.1 hroot
    have hid := hm.root_id_ne ht hb
    exact hid (congrArg EntityRef.id (congrArg Prod.fst heq))
  · intro htaken
    obtain ⟨s, hs⟩ := strongest_of_taken htaken
    exact ⟨s, by rw [hs]⟩

/-- A root is found itself, when something is contributed to it. -/
theorem foundAfter?_root (hheld : Held m cs) (ht : m.ref? t.id = some t)
    (hroot : m.base? t = none) (hnamed : ∃ r ∈ cs, r.owner = t) :
    ∃ s, foundAfter? m op cs t = some (t, s) ∧
      strongest (contributed m op cs ⟨t.id, op⟩) = some s := by
  have htaken : (contributed m op cs).taken ⟨t.id, op⟩ = true :=
    (taken_root_iff hheld ht hroot).2 hnamed
  obtain ⟨s, hs⟩ := strongest_of_taken htaken
  exact ⟨s, by rw [foundAfter?, foundBy?, hs], hs⟩

/-! ## Two orders -/

/-- The contributions to the root of a type come first, then one to the type, then the others. -/
def rootFirst (m : Model) (cs : List Contribution) (c : Contribution) : List Contribution :=
  cs.filter (·.owner = m.root c.owner) ++
    c :: (cs.erase c).filter fun c' => !decide (c'.owner = m.root c.owner)

/-- The contributions to the root of a type come last. -/
def rootLast (m : Model) (cs : List Contribution) (c : Contribution) : List Contribution :=
  (cs.filter fun c' => !decide (c'.owner = m.root c.owner)) ++
    cs.filter (·.owner = m.root c.owner)

theorem rootLast_perm (m : Model) (cs : List Contribution) (c : Contribution) :
    (rootLast m cs c).Perm cs :=
  List.perm_append_comm.trans (List.filter_append_perm _ cs)

theorem rootFirst_perm (hc : c ∈ cs) (hother : c.owner ≠ m.root c.owner) :
    (rootFirst m cs c).Perm cs := by
  have herase : (c :: cs.erase c).Perm cs := (List.perm_cons_erase hc).symm
  have hothers := herase.filter fun c' => !decide (c'.owner = m.root c.owner)
  rw [List.filter_cons_of_pos (by simp [hother])] at hothers
  exact (hothers.append_left _).trans (List.filter_append_perm _ cs)

theorem owner_ne_root (hm : m.Founded) (hderived : (m.base? c.owner).isSome = true) :
    c.owner ≠ m.root c.owner := by
  intro hsame
  have hnone := hm.base?_root c.owner
  rw [← hsame] at hnone
  rw [hnone] at hderived
  cases hderived

/-- With the root last, the type has its own slot. -/
theorem taken_rootLast (hm : m.Founded) (hheld : Held m cs) (hc : c ∈ cs)
    (hderived : (m.base? c.owner).isSome = true) :
    (contributed m op (rootLast m cs c)).taken ⟨c.owner.id, op⟩ = true := by
  have hheld' : Held m (rootLast m cs c) := hheld.of_subset (rootLast_perm m cs c).subset
  have hother := owner_ne_root hm hderived
  have hmem : c ∈ cs.filter fun c' => !decide (c'.owner = m.root c.owner) := by
    simp [hc, hother]
  obtain ⟨pre, post, heq⟩ := List.append_of_mem hmem
  refine (taken_derived_iff hm hheld' (hheld c hc) hderived).2 (.inr ?_)
  refine ⟨pre, c, post ++ cs.filter (·.owner = m.root c.owner), ?_, rfl, ?_⟩
  · rw [rootLast, heq]
    simp
  · intro c' hc'
    have hmem' : c' ∈ cs.filter fun c' => !decide (c'.owner = m.root c.owner) := by
      rw [heq]
      exact List.mem_append_left _ hc'
    simpa using (List.mem_filter.1 hmem').2

/-- With the root last, its slot has the contributions to the root only. -/
theorem exists_of_mem_rootLast (hm : m.Founded) (hheld : Held m cs) (hc : c ∈ cs)
    (hs : s ∈ contributed m op (rootLast m cs c) ⟨(m.root c.owner).id, op⟩) :
    ∃ r ∈ cs, r.owner = m.root c.owner ∧ r.source = s := by
  have hheld' : Held m (rootLast m cs c) := hheld.of_subset (rootLast_perm m cs c).subset
  have hroot : m.base? (m.root c.owner) = none := hm.base?_root c.owner
  have hrooted := Model.ref?_root (hheld c hc)
  -- The contributions to the root are taken in one after another, as they come last.
  have hlast : ∀ last : List Contribution, (∀ r ∈ last, r ∈ cs ∧ r.owner = m.root c.owner) →
      s ∈ contributed m op
        ((cs.filter fun c' => !decide (c'.owner = m.root c.owner)) ++ last)
        ⟨(m.root c.owner).id, op⟩ →
      ∃ r ∈ cs, r.owner = m.root c.owner ∧ r.source = s := by
    intro last hall hs
    induction last using List.reverseRecOn with
    | nil =>
        have hothers : Held m (cs.filter fun c' => !decide (c'.owner = m.root c.owner)) :=
          hheld.of_subset List.filter_sublist.subset
        rw [List.append_nil] at hs
        obtain ⟨r, hr, hrowner⟩ :=
          (taken_root_iff hothers hrooted hroot).1 (History.taken_iff.2 ⟨s, hs⟩)
        simp [hrowner] at hr
    | append_singleton last r ih =>
        obtain ⟨hr, hrowner⟩ := hall r (by simp)
        rw [← List.append_assoc, contributed_append, mem_contribute] at hs
        rcases hs with hold | ⟨_, hsource⟩
        · exact ih (fun r' hr' => hall r' (List.mem_append_left _ hr')) hold
        · exact ⟨r, hr, hrowner, hsource.symm⟩
  exact hlast _ (fun r hr => by simpa using hr) hs

/-- With the root first, the convention goes to the root. -/
theorem inherits_rootFirst (hm : m.Founded) (hheld : Held m cs) (hc : c ∈ cs)
    (hconvention : c.isConvention = true) (hderived : (m.base? c.owner).isSome = true)
    (hnamed : ∃ r ∈ cs, r.owner = m.root c.owner) :
    Inherits m op (contributed m op (cs.filter (·.owner = m.root c.owner))) c := by
  have hroots : Held m (cs.filter (·.owner = m.root c.owner)) :=
    hheld.of_subset List.filter_sublist.subset
  have hother := owner_ne_root hm hderived
  refine ⟨hconvention, hderived, ?_, ?_⟩
  · rw [Bool.eq_false_iff]
    intro htaken
    rcases (taken_derived_iff hm hroots (hheld c hc) hderived).1 htaken with
      hexplicit | ⟨pre, c', post, heq, hsame, _⟩
    · have howner := (List.mem_filter.1 hexplicit).2
      exact hother (of_decide_eq_true howner)
    · have hc' : c' ∈ cs.filter (·.owner = m.root c.owner) := by
        rw [heq]
        simp
      apply hother
      rw [← hsame]
      simpa [hsame] using (List.mem_filter.1 hc').2
  · obtain ⟨r, hr, hrowner⟩ := hnamed
    refine (taken_root_iff hroots (Model.ref?_root (hheld c hc)) (hm.base?_root _)).2
      ⟨r, ?_, hrowner⟩
    simp [hr, hrowner]

/-- With the root first, the source of the convention is in the root's slot. -/
theorem mem_rootFirst (hm : m.Founded) (hheld : Held m cs) (hc : c ∈ cs)
    (hconvention : c.isConvention = true) (hderived : (m.base? c.owner).isSome = true)
    (hnamed : ∃ r ∈ cs, r.owner = m.root c.owner) :
    c.source ∈ contributed m op (rootFirst m cs c) ⟨(m.root c.owner).id, op⟩ := by
  have hinherits : Inherits m op (contributed m op (cs.filter (·.owner = m.root c.owner))) c :=
    inherits_rootFirst hm hheld hc hconvention hderived hnamed
  rw [← slot_of_inherits hinherits]
  exact mem_contributed_slot _ _ c

/-- With the root first, only an explicit call gives the type its own slot. -/
theorem explicit_of_taken_rootFirst (hm : m.Founded) (hheld : Held m cs) (hc : c ∈ cs)
    (hderived : (m.base? c.owner).isSome = true) (hnamed : ∃ r ∈ cs, r.owner = m.root c.owner)
    (htaken : (contributed m op (rootFirst m cs c)).taken ⟨c.owner.id, op⟩ = true) :
    .explicit c.owner ∈ cs := by
  have hother := owner_ne_root hm hderived
  have hperm := rootFirst_perm hc hother
  have hheld' : Held m (rootFirst m cs c) := hheld.of_subset hperm.subset
  rcases (taken_derived_iff hm hheld' (hheld c hc) hderived).1 htaken with
    hexplicit | ⟨pre, c', post, heq, hsame, hfirst⟩
  · exact hperm.mem_iff.1 hexplicit
  · -- The list starts with a contribution to the root.
    exfalso
    obtain ⟨r, hr, hrowner⟩ := hnamed
    have hmem : r ∈ cs.filter (·.owner = m.root c.owner) := by simp [hr, hrowner]
    obtain ⟨r₀, rest, hroots⟩ := List.exists_cons_of_ne_nil (List.ne_nil_of_mem hmem)
    have hr₀ : r₀ ∈ cs.filter (·.owner = m.root c.owner) := by rw [hroots]; simp
    have howner₀ : r₀.owner = m.root c.owner := by simpa using (List.mem_filter.1 hr₀).2
    rw [rootFirst, hroots, List.cons_append] at heq
    cases pre with
    | nil =>
        have hhead : r₀ = c' := (List.cons.inj heq).1
        rw [← hhead, howner₀] at hsame
        exact hother hsame.symm
    | cons p pre =>
        have hhead : r₀ = p := (List.cons.inj heq).1
        exact hfirst p (by simp) (hhead ▸ howner₀)

/-- **Contributions that commute are settled.** -/
theorem settled_of_commute (hm : m.Founded) (hheld : Held m cs)
    (hcommute : ∀ cs₁ cs₂ : List Contribution, cs₁.Perm cs → cs₂.Perm cs →
      ∀ t, m.ref? t.id = some t → foundAfter? m op cs₁ t = foundAfter? m op cs₂ t) :
    Settled m cs := by
  intro c hc hconvention hderived hnamed
  have hother := owner_ne_root hm hderived
  have hfirst := rootFirst_perm hc hother
  have hlast := rootLast_perm m cs c
  have hsame := hcommute _ _ hfirst hlast
  constructor
  · -- The type is found itself when the root is last, so it is when the root is first.
    have hown : (contributed m op (rootLast m cs c)).taken ⟨c.owner.id, op⟩ = true :=
      taken_rootLast hm hheld hc hderived
    obtain ⟨s, hs⟩ := (foundAfter?_own_iff hm (hheld c hc) hderived).2 hown
    rw [← hsame c.owner (hheld c hc)] at hs
    have htaken := (foundAfter?_own_iff hm (hheld c hc) hderived).1 ⟨s, hs⟩
    exact explicit_of_taken_rootFirst hm hheld hc hderived hnamed htaken
  · -- The root has the same source whether the convention has gone to it or not.
    have hroot : m.base? (m.root c.owner) = none := hm.base?_root c.owner
    have hrooted := Model.ref?_root (hheld c hc)
    have hfound : ∀ {cs' : List Contribution}, cs'.Perm cs →
        ∃ s, foundAfter? m op cs' (m.root c.owner) = some (m.root c.owner, s) ∧
          strongest (contributed m op cs' ⟨(m.root c.owner).id, op⟩) = some s := by
      intro cs' hperm
      have hheld' : Held m cs' := hheld.of_subset hperm.subset
      refine foundAfter?_root hheld' hrooted hroot ?_
      obtain ⟨r, hr, hrowner⟩ := hnamed
      exact ⟨r, hperm.mem_iff.2 hr, hrowner⟩
    obtain ⟨s₁, hs₁, htop₁⟩ := hfound hfirst
    obtain ⟨s₂, hs₂, htop₂⟩ := hfound hlast
    have hle : c.source ≤ s₁ := (strongest_eq_some_iff.1 htop₁).2 _
      (mem_rootFirst hm hheld hc hconvention hderived hnamed)
    obtain ⟨r, hr, hrowner, hsource⟩ := exists_of_mem_rootLast hm hheld hc
      (strongest_eq_some_iff.1 htop₂).1
    have hboth := hsame (m.root c.owner) hrooted
    rw [hs₁, hs₂] at hboth
    have heq : s₁ = s₂ := congrArg Prod.snd (Option.some.inj hboth)
    exact ⟨r, hr, hrowner, by rw [hsource, ← heq]; exact hle⟩

/-- **Contributions commute** exactly where they are settled. -/
theorem commute_iff_settled (op : Operation) (hm : m.Founded) (hheld : Held m cs) :
    (∀ cs₁ cs₂ : List Contribution, cs₁.Perm cs → cs₂.Perm cs →
      ∀ t, m.ref? t.id = some t → foundAfter? m op cs₁ t = foundAfter? m op cs₂ t) ↔
      Settled m cs := by
  constructor
  · exact settled_of_commute hm hheld
  · intro hsettled cs₁ cs₂ hperm₁ hperm₂ t ht
    have hfound : ∀ {cs' : List Contribution}, cs'.Perm cs →
        foundAfter? m op cs' t = settledFor? m cs t := by
      intro cs' hperm
      have hheld' : Held m cs' := hheld.of_subset hperm.subset
      rw [foundAfter?_of_settled hm hheld' (hsettled.perm hperm) ht, settledFor?_perm hperm]
    rw [hfound hperm₁, hfound hperm₂]

end ProcedureMapping
