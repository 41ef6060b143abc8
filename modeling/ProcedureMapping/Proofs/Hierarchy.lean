import ProcedureMapping.Proofs.Session

/-!
# The hierarchy through a run

A base type is registered before the types that are derived from it, so in the models of a run
the ids fall along the chain of bases: they are **founded**.  The chain of a type therefore ends at
a root that has no base, and what the model says about it never changes.

Main statements:

* `Model.Founded.base?_root` — the root of a type has no base;
* `Model.Founded.root_apply` — a type keeps its root;
* `Run.founded` — the models of a run are founded.
-/

namespace ProcedureMapping

namespace Model

/-- Whether the base of each type comes before it. -/
def Founded (m : Model) : Prop :=
  ∀ (i : TypeId) (entry : EntityType) (b : TypeId),
    m.types[i]? = some entry → entry.base = some b → b < i

variable {m m' : Model} {e : Change} {t b : EntityRef}

theorem founded_new (i : ModelId) (config : Config) : (new i config).Founded := by
  intro j entry b hentry
  simp [new] at hentry

/-! ## Types and their bases -/

theorem base?_eq_some_iff : m.base? t = some b ↔
    t.model = m.id ∧ ∃ entry, m.types[t.id]? = some entry ∧ entry.base = some b.id ∧
      m.ref? b.id = some b := by
  unfold base? entry?
  constructor
  · intro h
    obtain ⟨j, hj, href⟩ := Option.bind_eq_some_iff.1 h
    obtain ⟨entry, hentry, hbase⟩ := Option.bind_eq_some_iff.1 hj
    split at hentry
    · next hmodel =>
        have hid : b.id = j := by
          obtain ⟨_, _, rfl⟩ := ref?_eq_some_iff.1 href
          rfl
        exact ⟨hmodel, entry, hentry, hid ▸ hbase, hid ▸ href⟩
    · cases hentry
  · rintro ⟨hmodel, entry, hentry, hbase, href⟩
    simp [hmodel, hentry, hbase, href]

/-- The id tells the type. -/
theorem eq_of_id_eq {u : EntityRef} (ht : m.ref? t.id = some t) (hu : m.ref? u.id = some u)
    (hid : t.id = u.id) : t = u := by
  rw [hid, hu] at ht
  exact (Option.some.inj ht).symm

/-- A base is a type of the model. -/
theorem ref?_of_base? (h : m.base? t = some b) : m.ref? b.id = some b := by
  obtain ⟨_, _, _, _, href⟩ := base?_eq_some_iff.1 h
  exact href

theorem Founded.base?_lt (hm : m.Founded) (h : m.base? t = some b) : b.id < t.id := by
  obtain ⟨_, entry, hentry, hbase, _⟩ := base?_eq_some_iff.1 h
  exact hm t.id entry b.id hentry hbase

/-- Where the chain of bases has no more steps than the id says, it ends at a type without base. -/
theorem Founded.base?_climb (hm : m.Founded) {steps : Nat} (hsteps : t.id ≤ steps) :
    m.base? (m.climb steps t) = none := by
  induction steps generalizing t with
  | zero =>
      cases hbase : m.base? t with
      | none => exact hbase
      | some b =>
          have hlt : b.id < 0 := Nat.lt_of_lt_of_le (hm.base?_lt hbase) hsteps
          exact absurd hlt (Nat.not_lt_zero b.id)
  | succ steps ih =>
      cases hbase : m.base? t with
      | none =>
          simp only [climb, hbase]
      | some b =>
          have hlt : b.id < t.id := hm.base?_lt hbase
          have hb : b.id ≤ steps := Nat.le_of_lt_succ (Nat.lt_of_lt_of_le hlt hsteps)
          simpa only [climb, hbase] using ih hb

/-- **The root of a type has no base.** -/
theorem Founded.base?_root (hm : m.Founded) (t : EntityRef) : m.base? (m.root t) = none :=
  hm.base?_climb (Nat.le_refl t.id)

theorem ref?_climb (ht : m.ref? t.id = some t) (steps : Nat) :
    m.ref? (m.climb steps t).id = some (m.climb steps t) := by
  induction steps generalizing t with
  | zero => exact ht
  | succ steps ih =>
      cases hbase : m.base? t with
      | none => simpa only [climb, hbase] using ht
      | some b => simpa only [climb, hbase] using ih (ref?_of_base? hbase)

/-- The root of a type of the model is a type of the model. -/
theorem ref?_root (ht : m.ref? t.id = some t) : m.ref? (m.root t).id = some (m.root t) :=
  ref?_climb ht t.id

/-- A type with a base is not the root of its hierarchy. -/
theorem Founded.root_id_ne (hm : m.Founded) (ht : m.ref? t.id = some t)
    (hbase : m.base? t = some b) : (m.root t).id ≠ t.id := by
  intro hid
  have hsame : m.root t = t := eq_of_id_eq (ref?_root ht) ht hid
  have hnone := hm.base?_root t
  rw [hsame, hbase] at hnone
  cases hnone

/-! ## Models with the same types -/

/-- The types of a model tell the bases. -/
theorem base?_congr (hid : m'.id = m.id) (htypes : m'.types = m.types) (t : EntityRef) :
    m'.base? t = m.base? t := by
  have href : m'.ref? = m.ref? := by
    funext i
    rw [ref?, ref?, hid, htypes]
  rw [base?, base?, entry?, entry?, hid, htypes, href]

/-- The bases tell the chains. -/
theorem climb_congr (h : ∀ t, m'.base? t = m.base? t) (steps : Nat) (t : EntityRef) :
    m'.climb steps t = m.climb steps t := by
  induction steps generalizing t with
  | zero => rfl
  | succ steps ih => simp only [climb, h, ih]

/-! ## What changes keep -/

/-- A type keeps its name and its base. -/
theorem type_apply {i : TypeId} {entry : EntityType} (hallowed : m.Allows e)
    (h : m.types[i]? = some entry) :
    ∃ entry', (m.apply e).types[i]? = some entry' ∧ entry'.base = entry.base := by
  have hi : i < m.types.length := (List.getElem?_eq_some_iff.1 h).1
  cases e with
  | type name base =>
      refine ⟨entry, ?_, rfl⟩
      rw [apply, List.getElem?_append_left hi, h]
  | annotations j found annotations =>
      obtain ⟨_, hfound⟩ := hallowed
      by_cases hij : j = i
      · subst hij
        obtain rfl : found = entry := Option.some.inj (hfound.symm.trans h)
        exact ⟨{ found with annotations := annotations }, by simp [apply, setAnnotations, hi], rfl⟩
      · refine ⟨entry, ?_, rfl⟩
        rw [apply, setAnnotations, List.getElem?_set_ne hij, h]
  | vacate r owner op s =>
      rcases m.vacate_cases r owner op s with hm | ⟨_, _, hm⟩ <;> exact ⟨entry, by rw [hm, h], rfl⟩
  | _ => exact ⟨entry, h, rfl⟩

/-- A type has the bases that it had, and no others: what a change adds is no base of it. -/
theorem Founded.base?_apply (hm : m.Founded) (hallowed : m.Allows e)
    (ht : m.ref? t.id = some t) : (m.apply e).base? t = m.base? t := by
  obtain ⟨entry, hentry, hname⟩ := ref?_eq_some_iff.1 ht
  have hmodel : t.model = m.id := by rw [← hname]
  have hi : t.id < m.types.length := (List.getElem?_eq_some_iff.1 hentry).1
  obtain ⟨entry', hentry', hsame⟩ := type_apply hallowed hentry
  cases hbase : entry.base with
  | none => simp [base?, entry?, hmodel, hentry, hentry', hsame, hbase]
  | some j =>
      have hj : j < m.types.length := Nat.lt_trans (hm t.id entry j hentry hbase) hi
      have href : m.ref? j = some ⟨m.id, j, m.types[j].name⟩ := by simp [ref?, hj]
      have href' := ref?_apply hallowed href
      simp [base?, entry?, hmodel, hentry, hentry', hsame, hbase, href, href']

theorem Founded.climb_apply (hm : m.Founded) (hallowed : m.Allows e)
    (ht : m.ref? t.id = some t) (steps : Nat) : (m.apply e).climb steps t = m.climb steps t := by
  induction steps generalizing t with
  | zero => rfl
  | succ steps ih =>
      simp only [climb, hm.base?_apply hallowed ht]
      cases hbase : m.base? t with
      | none => rfl
      | some b => exact ih (ref?_of_base? hbase)

/-- **A type keeps its root.** -/
theorem Founded.root_apply (hm : m.Founded) (hallowed : m.Allows e)
    (ht : m.ref? t.id = some t) : (m.apply e).root t = m.root t :=
  hm.climb_apply hallowed ht t.id

/-- **Changes keep a model founded**: a new type comes last, and its base is there already. -/
theorem founded_apply (hm : m.Founded) (hallowed : m.Allows e) : (m.apply e).Founded := by
  intro i entry b hentry hbase
  by_cases hi : i < m.types.length
  · have hold : m.types[i]? = some m.types[i] := List.getElem?_eq_getElem hi
    obtain ⟨entry', hentry', hsame⟩ := type_apply hallowed hold
    obtain rfl : entry' = entry := Option.some.inj (hentry'.symm.trans hentry)
    exact hm i m.types[i] b hold (hsame ▸ hbase)
  · have hlt : i < (m.apply e).types.length := (List.getElem?_eq_some_iff.1 hentry).1
    cases e with
    | type name base =>
        obtain ⟨_, _, _, _, _, hregistered⟩ := hallowed
        have hlast : i = m.types.length := by
          rw [apply, List.length_append, List.length_singleton] at hlt
          exact Nat.le_antisymm (Nat.le_of_lt_succ hlt) (Nat.le_of_not_lt hi)
        subst hlast
        rw [apply, List.getElem?_concat_length] at hentry
        obtain rfl := Option.some.inj hentry
        exact hregistered b hbase
    | annotations j found annotations =>
        rw [apply, setAnnotations, List.length_set] at hlt
        exact absurd hlt hi
    | vacate r owner op s =>
        rcases m.vacate_cases r owner op s with hm' | ⟨_, _, hm'⟩ <;> rw [hm'] at hlt <;>
          exact absurd hlt hi
    | _ => exact absurd hlt hi

end Model

namespace Workspace

variable {w : Workspace} {steps : List Step}

/-- **The models of a run are founded.** -/
theorem Run.founded {ok : List Step → Command → Prop} {w' : Workspace} (h : Run ok w steps w')
    (hw : ∀ i m, w.model? i = some m → m.Founded) : ∀ i m, w'.model? i = some m → m.Founded :=
  h.models Model.founded_new (fun _ _ _ => Model.founded_apply) hw

theorem Session.founded (h : Session steps w) : ∀ i m, w.model? i = some m → m.Founded :=
  Run.founded h empty_models

end Workspace

end ProcedureMapping
