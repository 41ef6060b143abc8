import Mathlib.Data.List.Nodup
import ProcedureMapping.Proofs.Hierarchy

/-!
# Types and their ancestors

Whatever is called on a model, and whatever it refuses, the types that it has registered stay in
order: the ids count them, the names tell them apart, and a base comes before what is derived from
it.  So the loop that goes from a type to its base, again and again, comes to an end, and it ends at
the root.

Main statements:

* `Model.catalogued_apply` — every change keeps the names in order;
* `Model.Founded.ascends_iff` — the loop ends, and at the root only;
* `Model.Founded.root_of_base?` — a type and its base have one root;
* `Run.registered` — what has been registered is what the model holds;
* `ancestry_settled` — all of it, through any run.
-/

namespace ProcedureMapping

namespace Model

/-- The types of a model, in the order of their registration. -/
def refs (m : Model) : List EntityRef := m.types.mapIdx fun i entry => ⟨m.id, i, entry.name⟩

/-- The loop that goes from a type to its base, as long as there is one, ends at `r`. -/
inductive Ascends (m : Model) : EntityRef → EntityRef → Prop
  | stop {t : EntityRef} (last : m.base? t = none) : Ascends m t t
  | step {t b r : EntityRef} (base : m.base? t = some b) (rest : Ascends m b r) : Ascends m t r

variable {m : Model} {e : Change} {t u b r : EntityRef} {i : TypeId}

/-! ## Types by id and by name -/

theorem mem_refs_iff : t ∈ m.refs ↔ m.ref? t.id = some t := by
  rw [refs, List.mem_mapIdx, ref?_eq_some_iff]
  constructor
  · rintro ⟨i, hi, rfl⟩
    exact ⟨m.types[i], List.getElem?_eq_getElem hi, rfl⟩
  · rintro ⟨entry, hentry, heq⟩
    obtain ⟨hi, rfl⟩ := List.getElem?_eq_some_iff.1 hentry
    exact ⟨t.id, hi, heq⟩

theorem map_id_refs (m : Model) : m.refs.map EntityRef.id = List.range m.types.length := by
  apply List.ext_getElem
  · simp [refs]
  · intro i _ _
    simp [refs]

theorem map_name_refs (m : Model) : m.refs.map EntityRef.name = m.typeNames := by
  apply List.ext_getElem
  · simp [refs, typeNames]
  · intro i _ _
    simp [refs, typeNames]

/-- What a change does to the names of types: nothing, or it adds one at the end. -/
theorem typeNames_apply (hallowed : m.Allows e) : (m.apply e).typeNames = m.typeNames ∨
    ∃ name base, e = .type name base ∧ (m.apply e).typeNames = m.typeNames ++ [name] := by
  cases e with
  | type name base => exact .inr ⟨name, base, rfl, by simp [typeNames, apply]⟩
  | annotations j found annotations =>
      left
      obtain ⟨hj, rfl⟩ := List.getElem?_eq_some_iff.1 hallowed.2
      have hname : j < m.typeNames.length := by simpa [typeNames] using hj
      have hsame : m.typeNames.set j m.typeNames[j] = m.typeNames := List.set_getElem_self hname
      rw [typeNames, apply, setAnnotations, List.map_set]
      simpa [typeNames] using hsame
  | vacate r owner op s =>
      left
      rcases m.vacate_cases r owner op s with hm | ⟨_, _, hm⟩
      · rw [hm]
      · rw [hm]
        rfl
  | _ => exact .inl rfl

/-- Whether the types of a model have names, short enough ones, and each its own, and are not too
many. -/
structure Catalogued (m : Model) : Prop where
  fits : m.typeNames.length ≤ UInt32.size
  distinct : m.typeNames.Nodup
  named : ∀ name ∈ m.typeNames, Text.isBlank name = false ∧
    name.length ≤ m.settings.config.maxIdentifierLength.toNat

theorem catalogued_new (i : ModelId) (config : Config) : (new i config).Catalogued where
  fits := Nat.zero_le _
  distinct := List.nodup_nil
  named _ hname := by cases hname

/-- **Every change keeps the names in order**: a new name is checked against those before it, and
counted. -/
theorem catalogued_apply (hm : m.Catalogued) (hallowed : m.Allows e) : (m.apply e).Catalogued := by
  rcases typeNames_apply hallowed with hsame | ⟨name, base, rfl, hadded⟩
  · refine ⟨hsame ▸ hm.fits, hsame ▸ hm.distinct, ?_⟩
    rw [hsame, config_apply]
    exact hm.named
  · obtain ⟨_, hnamed, hshort, hfresh, hfits, _⟩ := hallowed
    have hlength : name.length ≤ m.settings.config.maxIdentifierLength.toNat := by
      unfold Config.validateIdentifier at hshort
      split at hshort
      · cases hshort
      · next hle => exact Nat.le_of_not_lt hle
    refine ⟨?_, ?_, ?_⟩
    · rw [hadded, List.length_append, typeNames, List.length_map]
      exact hfits
    · rw [hadded, List.nodup_append]
      refine ⟨hm.distinct, List.nodup_singleton name, ?_⟩
      rintro other hother _ hname rfl
      rw [List.mem_singleton] at hname
      exact hfresh (hname ▸ hother)
    · intro other hother
      rw [config_apply]
      rw [hadded, List.mem_append, List.mem_singleton] at hother
      rcases hother with hold | rfl
      · exact hm.named other hold
      · exact ⟨hnamed, hlength⟩

/-- A type is found under its name. -/
theorem Catalogued.find?_name (hm : m.Catalogued) (ht : m.ref? t.id = some t) :
    m.find? t.name = some t := by
  obtain ⟨entry, hentry, hname⟩ := ref?_eq_some_iff.1 ht
  obtain ⟨hi, rfl⟩ := List.getElem?_eq_some_iff.1 hentry
  have hthis : m.types[t.id].name = t.name := congrArg EntityRef.name hname
  have hindex : m.types.findIdx? (·.name == t.name) = some t.id := by
    rw [List.findIdx?_eq_some_iff_getElem]
    refine ⟨hi, by simpa using hthis, ?_⟩
    -- An earlier type of the same name would be the same type.
    intro j hj hsame
    have hi' : t.id < m.typeNames.length := by simpa [typeNames] using hi
    have hj' : j < m.typeNames.length := Nat.lt_trans hj hi'
    have heq : m.typeNames[j] = m.typeNames[t.id] := by
      simp only [typeNames, List.getElem_map]
      rw [hthis]
      simpa using hsame
    have hid : j = t.id := hm.distinct.getElem_inj_iff.1 heq
    exact absurd hid (Nat.ne_of_lt hj)
  rw [find?, hindex, Option.bind_some, ht]

/-! ## Climbing -/

/-- The loop has one end only. -/
theorem Ascends.unique (h : m.Ascends t r) (h' : m.Ascends t u) : r = u := by
  induction h with
  | stop last =>
      cases h' with
      | stop => rfl
      | step base => rw [last] at base; cases base
  | step base _ ih =>
      cases h' with
      | stop last => rw [base] at last; cases last
      | step base' rest' =>
          cases base.symm.trans base'
          exact ih rest'

/-- The loop ends at a type without a base. -/
theorem Ascends.base?_eq_none (h : m.Ascends t r) : m.base? r = none := by
  induction h with
  | stop last => exact last
  | step _ _ ih => exact ih

/-- **The loop ends**, after no more steps than the id says. -/
theorem Founded.ascends_climb (hm : m.Founded) {steps : Nat} (hsteps : t.id ≤ steps) :
    m.Ascends t (m.climb steps t) := by
  induction steps generalizing t with
  | zero => exact .stop (hm.base?_climb hsteps)
  | succ steps ih =>
      cases hbase : m.base? t with
      | none =>
          simp only [climb, hbase]
          exact .stop hbase
      | some b =>
          have hlt : b.id < t.id := hm.base?_lt hbase
          simp only [climb, hbase]
          exact .step hbase (ih (Nat.le_of_lt_succ (Nat.lt_of_lt_of_le hlt hsteps)))

theorem Founded.ascends_root (hm : m.Founded) (t : EntityRef) : m.Ascends t (m.root t) :=
  hm.ascends_climb (Nat.le_refl t.id)

/-- **The loop ends at the root**, and nowhere else. -/
theorem Founded.ascends_iff (hm : m.Founded) : m.Ascends t r ↔ r = m.root t := by
  constructor
  · intro h
    exact h.unique (hm.ascends_root t)
  · rintro rfl
    exact hm.ascends_root t

/-- A type without a base is its own root. -/
theorem Founded.root_of_base?_eq_none (hm : m.Founded) (h : m.base? t = none) : m.root t = t :=
  (hm.ascends_iff.1 (.stop h)).symm

/-- **A type and its base have one root.** -/
theorem Founded.root_of_base? (hm : m.Founded) (h : m.base? t = some b) : m.root t = m.root b :=
  (hm.ascends_iff.1 (.step h (hm.ascends_root b))).symm

/-- What a model says about the ancestors of a type. -/
structure Ancestry (m : Model) (t : EntityRef) : Prop where
  ascends : ∀ r, m.Ascends t r ↔ r = m.root t
  last : m.base? (m.root t) = none
  root : m.root (m.root t) = m.root t
  base : ∀ b, m.base? t = some b → m.root t = m.root b
  foreign : t.model ≠ m.id → m.base? t = none ∧ m.root t = t

theorem Founded.ancestry (hm : m.Founded) (t : EntityRef) : m.Ancestry t where
  ascends _ := hm.ascends_iff
  last := (hm.ascends_root t).base?_eq_none
  root := hm.root_of_base?_eq_none (hm.base?_root t)
  base _ := hm.root_of_base?
  foreign ht := ⟨base?_foreign ht, hm.root_of_base?_eq_none (base?_foreign ht)⟩

end Model

/-! ## Runs -/

/-- The registration that a step has made in the model `i`: the new type, and its base. -/
def Step.registration? (i : ModelId) (s : Step) : Option (EntityRef × Option EntityRef) :=
  match s.command, s.answer with
  | .addType j _ base, .ok (.type t) => if j = i then some (t, base) else none
  | _, _ => none

/-- The registrations that some steps have made in the model `i`. -/
def registrations (i : ModelId) (steps : List Step) : List (EntityRef × Option EntityRef) :=
  steps.filterMap (Step.registration? i)

/-- What stays of the types of a model: every type that it has, its base and its root. -/
structure Model.Retains (m m' : Model) : Prop where
  ref? : ∀ t, m.ref? t.id = some t → m'.ref? t.id = some t
  base? : ∀ t, m.ref? t.id = some t → m'.base? t = m.base? t
  root : ∀ t, m.ref? t.id = some t → m'.root t = m.root t

namespace Model

variable {m m' m'' : Model} {e : Change}

theorem Retains.refl (m : Model) : m.Retains m where
  ref? _ ht := ht
  base? _ _ := rfl
  root _ _ := rfl

theorem Retains.trans (h : m.Retains m') (h' : m'.Retains m'') : m.Retains m'' where
  ref? t ht := h'.ref? t (h.ref? t ht)
  base? t ht := (h'.base? t (h.ref? t ht)).trans (h.base? t ht)
  root t ht := (h'.root t (h.ref? t ht)).trans (h.root t ht)

theorem Founded.retains_apply (hm : m.Founded) (hallowed : m.Allows e) :
    m.Retains (m.apply e) where
  ref? _ := ref?_apply hallowed
  base? _ := hm.base?_apply hallowed
  root _ := hm.root_apply hallowed

/-- The names of the types tell the references to them. -/
theorem refs_congr (hid : m'.id = m.id) (hnames : m'.typeNames = m.typeNames) :
    m'.refs = m.refs := by
  have hrefs : ∀ m : Model, m.refs = m.typeNames.mapIdx fun i name => ⟨m.id, i, name⟩ := by
    intro m
    apply List.ext_getElem
    · simp [refs, typeNames]
    · intro i _ _
      simp [refs, typeNames]
  rw [hrefs m', hrefs m, hid, hnames]

/-- What a registration leaves: one more type at the end, with its base. -/
theorem addType_refs {name : String} {base : Option EntityRef} {t : EntityRef}
    (h : m.addType name base = .ok (t, m')) : m'.refs = m.refs ++ [t] ∧
      (m'.base? t).map EntityRef.id = base.map EntityRef.id := by
  obtain ⟨rfl, b, hb, rfl⟩ := addType_eq_ok h
  refine ⟨by simp [refs, List.mapIdx_append], ?_⟩
  cases base with
  | none =>
      cases hb
      simp [base?, entry?]
  | some base =>
      have hbase : b = some base.id := by
        by_cases hcontains : m.contains base = true
        · simpa [baseId, hcontains, eq_comm] using hb
        · simp [baseId, hcontains] at hb
      have hlt : base.id < m.types.length := baseId_eq_ok hb hbase
      simp [base?, entry?, hbase, ref?, List.getElem?_append_left hlt, hlt]

end Model

namespace Workspace

variable {w w' : Workspace} {c : Command} {i : ModelId} {m m' : Model} {steps more : List Step}
  {ok : List Step → Command → Prop}

/-- **A type keeps its ancestors** through any run. -/
theorem Run.retains (h : Run ok w steps w') (hw : ∀ i m, w.model? i = some m → m.Founded)
    (hm : w.model? i = some m) : ∃ m', w'.model? i = some m' ∧ m.Retains m' := by
  induction h with
  | nil => exact ⟨m, hm, .refl m⟩
  | snoc before single _ does ih =>
      obtain ⟨m₁, hm₁, hretains⟩ := ih
      have hfounded : m₁.Founded := Run.founded before hw _ m₁ hm₁
      rcases (execute_effect single does).model_after hm₁ with hsame | ⟨e, _, hallowed, hm₂⟩
      · exact ⟨m₁, hsame, hretains⟩
      · exact ⟨_, hm₂, hretains.trans (hfounded.retains_apply hallowed)⟩

/-- Whether the registrations in the model `i` are told by the model: which types there are, and
which of them have which base. -/
structure Registered (i : ModelId) (steps : List Step) (w : Workspace) : Prop where
  types : (registrations i steps).map Prod.fst = ((w.model? i).map Model.refs).getD []
  bases : ∀ m t base, w.model? i = some m → (t, base) ∈ registrations i steps →
    (m.base? t).map EntityRef.id = base.map EntityRef.id

theorem registrations_append (i : ModelId) (steps : List Step) (s : Step) :
    registrations i (steps ++ [s]) = registrations i steps ++ (s.registration? i).toList := by
  unfold registrations
  rw [List.filterMap_append]
  cases h : s.registration? i <;> simp [h]

/-- A step that registers nothing leaves the types of the model as they are. -/
theorem refs_other {a : Except Error Outcome} (hsingle : c.isSingle = true)
    (h : w.execute c = some (w', a)) (hnone : Step.registration? i ⟨c, a⟩ = none) :
    ((w'.model? i).map Model.refs).getD [] = ((w.model? i).map Model.refs).getD [] := by
  cases a with
  | error x => rw [execute_error hsingle h]
  | ok o =>
      have heffect := execute_effect hsingle h
      cases hm : w.model? i with
      | none =>
          cases hm' : w'.model? i with
          | none => rfl
          | some m' =>
              rcases heffect.model_before hm' with ⟨config, _, rfl⟩ | ⟨m, hm₁, _⟩
              · rfl
              · rw [hm] at hm₁
                cases hm₁
      | some m =>
          rcases heffect.model_after hm with hsame | ⟨e, hmakes, hallowed, hafter⟩
          · rw [hsame]
          · have hnames : (m.apply e).typeNames = m.typeNames := by
              rcases Model.typeNames_apply hallowed with hsame | ⟨name, base, rfl, _⟩
              · exact hsame
              · -- Only a registration adds a name.
                cases hmakes
                have hkind := execute_kind h
                cases o <;> cases hkind
                simp [Step.registration?] at hnone
            rw [hafter]
            exact Model.refs_congr (m.id_apply e) hnames

theorem execute_registration {a : Except Error Outcome} {t : EntityRef} {base : Option EntityRef}
    (h : w.execute c = some (w', a)) (hmade : Step.registration? i ⟨c, a⟩ = some (t, base)) :
    ∃ m m' name, w.model? i = some m ∧ m.addType name base = .ok (t, m') ∧
      w' = w.setModel i m' := by
  unfold Step.registration? at hmade
  split at hmade
  · next j name base' u hc ha =>
      obtain ⟨rfl, rfl⟩ : c = .addType j name base' ∧ a = .ok (.type u) := ⟨hc, ha⟩
      by_cases hij : j = i
      · simp only [hij, if_true, Option.some.injEq, Prod.mk.injEq] at hmade
        obtain ⟨rfl, rfl⟩ := hmade
        subst hij
        obtain ⟨m, m', hm, hchange, rfl⟩ := changeModel_ok h
        obtain ⟨⟨v, n⟩, hadd, heq⟩ := map_eq_ok_iff.1 hchange
        cases heq
        exact ⟨m, m', name, hm, hadd, rfl⟩
      · simp [hij] at hmade
  · cases hmade

/-- **What has been registered** is what the model holds. -/
theorem Run.registered (h : FreeRun .empty steps w) (i : ModelId) : Registered i steps w := by
  induction h with
  | nil =>
      refine ⟨rfl, ?_⟩
      intro m t base hm
      cases hm
  | @snoc steps v v' c a before single _ does ih =>
      have hfounded : ∀ i m, v.model? i = some m → m.Founded :=
        Run.founded before empty_models
      have hold : ∀ m' t base, v'.model? i = some m' → (t, base) ∈ registrations i steps →
          (m'.base? t).map EntityRef.id = base.map EntityRef.id := by
        intro m' t base hm' hmem
        have htypes := ih.types
        cases hm : v.model? i with
        | none =>
            rw [hm] at htypes
            have hnil : registrations i steps = [] := List.map_eq_nil_iff.1 htypes
            rw [hnil] at hmem
            cases hmem
        | some m =>
            rw [hm] at htypes
            have ht : t ∈ m.refs := by
              have hfst : t ∈ (registrations i steps).map Prod.fst :=
                List.mem_map.2 ⟨(t, base), hmem, rfl⟩
              rw [htypes] at hfst
              exact hfst
            have hlast : FreeRun v ([] ++ [⟨c, a⟩]) v' := .snoc .nil single trivial does
            obtain ⟨m'', hm'', hretains⟩ := Run.retains hlast hfounded hm
            cases hm''.symm.trans hm'
            rw [hretains.base? t (Model.mem_refs_iff.1 ht)]
            exact ih.bases m t base hm hmem
      cases hmade : Step.registration? i ⟨c, a⟩ with
      | none =>
          refine ⟨?_, ?_⟩
          · rw [registrations_append, hmade, refs_other single does hmade]
            simpa using ih.types
          · intro m' t base hm' hmem
            rw [registrations_append, hmade, Option.toList_none, List.append_nil] at hmem
            exact hold m' t base hm' hmem
      | some made =>
          obtain ⟨t, base⟩ := made
          obtain ⟨m, m', name, hm, hadd, rfl⟩ := execute_registration does hmade
          have hm' : (v.setModel i m').model? i = some m' := by
            rw [model?_setModel hm, if_pos rfl]
          obtain ⟨hrefs, hbase⟩ := Model.addType_refs hadd
          have htypes := ih.types
          rw [hm] at htypes
          refine ⟨?_, ?_⟩
          · rw [registrations_append, hmade, hm', List.map_append, htypes]
            exact hrefs.symm
          · intro n u base' hn hmem
            rw [registrations_append, hmade, List.mem_append] at hmem
            rcases hmem with hbefore | hlast
            · exact hold n u base' hn hbefore
            · obtain ⟨rfl, rfl⟩ : u = t ∧ base' = base := by simpa using hlast
              cases hm'.symm.trans hn
              exact hbase

/-- What holds of the types of a model that has come about by the steps: they are those that were
registered, in order and with their bases; ids, which fit in 32 bits, and names tell them apart; and
the loop along the bases of any type ends at its root. -/
structure Pedigree (i : ModelId) (steps : List Step) (m : Model) : Prop where
  id : m.id = i
  registered : (registrations i steps).map Prod.fst = m.refs
  bases : ∀ t base, (t, base) ∈ registrations i steps →
    (m.base? t).map EntityRef.id = base.map EntityRef.id
  ids : m.refs.map EntityRef.id = List.range m.refs.length
  fits : ∀ t ∈ m.refs, t.id < UInt32.size
  distinct : (m.refs.map EntityRef.name).Nodup
  named : ∀ t ∈ m.refs, Text.isBlank t.name = false ∧
    t.name.length ≤ m.settings.config.maxIdentifierLength.toNat
  found : ∀ t ∈ m.refs, m.find? t.name = some t ∧ m.ref? t.id = some t
  based : ∀ t b, m.base? t = some b → b ∈ m.refs ∧ b.model = t.model ∧ b.id < t.id
  ancestry : ∀ t, m.Ancestry t

/-- **The types of a model are in order** through any run of any commands; a later run adds to them
and changes no ancestor, and a registration that fails changes nothing. -/
theorem ancestry_settled (h : FreeRun .empty steps w) (hm : w.model? i = some m) :
    Pedigree i steps m ∧
      (∀ more w', FreeRun w more w' → ∃ m', w'.model? i = some m' ∧ m.Retains m') ∧
      ∀ name base w' x, w.execute (.addType i name base) = some (w', .error x) → w' = w := by
  have hfounded : ∀ i m, w.model? i = some m → m.Founded := Run.founded h empty_models
  have hcatalogued : m.Catalogued := by
    refine h.models (P := fun _ m => m.Catalogued) Model.catalogued_new ?_ empty_models i m hm
    exact fun _ _ _ => Model.catalogued_apply
  have hregistered := Run.registered h i
  have htypes := hregistered.types
  rw [hm] at htypes
  refine ⟨?_, ?_, ?_⟩
  · refine
      { id := Run.numbered h empty_models i m hm
        registered := htypes
        bases := fun t base => hregistered.bases m t base hm
        ids := ?_
        fits := ?_
        distinct := ?_
        named := ?_
        found := ?_
        based := ?_
        ancestry := (hfounded i m hm).ancestry }
    · rw [Model.map_id_refs]
      simp [Model.refs]
    · intro t ht
      have hid : t.id ∈ m.refs.map EntityRef.id := List.mem_map_of_mem ht
      rw [Model.map_id_refs, List.mem_range] at hid
      have hfits := hcatalogued.fits
      rw [Model.typeNames, List.length_map] at hfits
      exact Nat.lt_of_lt_of_le hid hfits
    · rw [Model.map_name_refs]
      exact hcatalogued.distinct
    · intro t ht
      refine hcatalogued.named t.name ?_
      rw [← Model.map_name_refs]
      exact List.mem_map.2 ⟨t, ht, rfl⟩
    · intro t ht
      have href := Model.mem_refs_iff.1 ht
      exact ⟨hcatalogued.find?_name href, href⟩
    · intro t b hbase
      have href := Model.ref?_of_base? hbase
      refine ⟨Model.mem_refs_iff.2 href, ?_, (hfounded i m hm).base?_lt hbase⟩
      obtain ⟨hmodel, _⟩ := Model.base?_eq_some_iff.1 hbase
      obtain ⟨_, _, heq⟩ := Model.ref?_eq_some_iff.1 href
      rw [hmodel, ← heq]
  · intro more w' hmore
    exact Run.retains hmore hfounded hm
  · intro name base w' x hfail
    exact execute_error rfl hfail

/-- Two models, with a chain of three types in the first; a foreign base and a name that is taken
are refused. -/
def bred : List Step × Workspace :=
  (carryOn (fun _ _ => True) [] .empty
    [.createModel .standard, .createModel .standard, .addType 0 "Animal" none,
      .addType 1 "Dog" none, .addType 0 "Cat" (some ⟨0, 0, "Animal"⟩),
      .addType 0 "Dog" (some ⟨1, 0, "Dog"⟩), .addType 0 "Cat" none,
      .addType 0 "Lion" (some ⟨0, 1, "Cat"⟩)]).get rfl

/-- The root of the last type is the first one. -/
theorem ancestry_settled_bred : ∃ m, bred.2.model? 0 = some m ∧ Pedigree 0 bred.1 m ∧
    m.refs = [⟨0, 0, "Animal"⟩, ⟨0, 1, "Cat"⟩, ⟨0, 2, "Lion"⟩] ∧
    m.root ⟨0, 2, "Lion"⟩ = ⟨0, 0, "Animal"⟩ := by
  have hrun : FreeRun .empty bred.1 bred.2 := Run.carryOn .nil (Option.some_get rfl).symm
  have hm : bred.2.model? 0 = some _ := rfl
  exact ⟨_, hm, (ancestry_settled hrun hm).1, rfl, rfl⟩

end Workspace

end ProcedureMapping
