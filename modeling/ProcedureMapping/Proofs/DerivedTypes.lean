import ProcedureMapping.Proofs.Ancestry

/-!
# Derived types

A type names its base, and so a model is asked for the relation from both sides: for the base of a
type, and for the types that are derived from a type.

The base is asked for through the entry of the type, which a model has for its own types only.  The
derived types are told by the id of the base, whichever model the base belongs to.  Among the types
of one model the two are inverse to each other; but a type of another model is answered for as if it
were the type that has its id here.

Main statements:

* `Founded.derived_eq_filter` — the derived types, in terms of bases;
* `derived_inverts_base` — when the two sides agree;
* `derived_answers_for_foreign` — a type of another model with derived types.
-/

namespace ProcedureMapping

namespace Model

/-- Whether `t` is the base of `d`: the base that the model knows is the type `t` itself. -/
def IsBase (m : Model) (t d : EntityRef) : Prop := ∃ b, m.base? d = some b ∧ b.same t = true

variable {m : Model} {t d b : EntityRef}

/-- A model is the model of every base that it knows. -/
theorem model_of_base? (h : m.base? d = some b) : b.model = m.id := by
  obtain ⟨_, _, heq⟩ := ref?_eq_some_iff.1 (ref?_of_base? h)
  rw [← heq]

/-- The entry of a type tells the id of its base. -/
theorem Founded.map_id_base? (hm : m.Founded) (hd : m.ref? d.id = some d) {entry : EntityType}
    (hentry : m.types[d.id]? = some entry) : (m.base? d).map EntityRef.id = entry.base := by
  obtain ⟨_, _, hname⟩ := ref?_eq_some_iff.1 hd
  have hmodel : d.model = m.id := by rw [← hname]
  have hlt : d.id < m.types.length := (List.getElem?_eq_some_iff.1 hentry).1
  cases hbase : entry.base with
  | none => simp [base?, entry?, hmodel, hentry, hbase]
  | some j =>
      have hj : j < m.types.length := Nat.lt_trans (hm d.id entry j hentry hbase) hlt
      simp [base?, entry?, hmodel, hentry, hbase, ref?, hj]

/-- **The derived types in terms of bases**: those types, in their order, whose base has the id. -/
theorem Founded.derived_eq_filter (hm : m.Founded) (t : EntityRef) :
    m.derived t = m.refs.filter fun d => (m.base? d).map EntityRef.id == some t.id := by
  rw [derived, ← map_id_refs, List.filterMap_map, ← List.filterMap_eq_filter]
  refine List.filterMap_congr fun d hd => ?_
  have href : m.ref? d.id = some d := mem_refs_iff.1 hd
  obtain ⟨entry, hentry, _⟩ := ref?_eq_some_iff.1 href
  have hid := hm.map_id_base? href hentry
  simp only [Function.comp_apply, hentry, hid, href, Option.guard]
  by_cases hbase : entry.base = some t.id
  · simp [hbase]
  · simp [hbase]

theorem Founded.mem_derived_iff (hm : m.Founded) :
    d ∈ m.derived t ↔ d ∈ m.refs ∧ ∃ b, m.base? d = some b ∧ b.id = t.id := by
  rw [hm.derived_eq_filter, List.mem_filter, beq_iff_eq, Option.map_eq_some_iff]

theorem nodup_refs (m : Model) : m.refs.Nodup := by
  apply List.Nodup.of_map EntityRef.id
  rw [map_id_refs]
  exact List.nodup_range

/-- For a type of the model, having its id and being it are the same. -/
theorem isBase_iff_of_own (ht : t.model = m.id) :
    m.IsBase t d ↔ ∃ b, m.base? d = some b ∧ b.id = t.id := by
  constructor
  · rintro ⟨b, hbase, hsame⟩
    exact ⟨b, hbase, (EntityRef.same_iff.1 hsame).2⟩
  · rintro ⟨b, hbase, hid⟩
    refine ⟨b, hbase, EntityRef.same_iff.2 ⟨?_, hid⟩⟩
    rw [model_of_base? hbase, ht]

/-- A type of another model is the base of nothing. -/
theorem not_isBase_of_foreign (ht : t.model ≠ m.id) : ¬ m.IsBase t d := by
  rintro ⟨b, hbase, hsame⟩
  rw [← (EntityRef.same_iff.1 hsame).1] at ht
  exact ht (model_of_base? hbase)

/-- What a model lists as the types that are derived from `t`. -/
structure Descent (m : Model) (t : EntityRef) : Prop where
  listed : ∀ d, d ∈ m.derived t ↔ d ∈ m.refs ∧ ∃ b, m.base? d = some b ∧ b.id = t.id
  order : (m.derived t).Sublist m.refs
  once : (m.derived t).Nodup
  own : t.model = m.id → ∀ d ∈ m.refs, d ∈ m.derived t ↔ m.IsBase t d
  /-- The answer for a type of another model is that for the type with its id. -/
  foreign : t.model ≠ m.id →
    m.derived t = ((m.ref? t.id).map m.derived).getD [] ∧ ∀ d, ¬ m.IsBase t d
  /-- When the two sides agree. -/
  inverse : (∀ d ∈ m.refs, d ∈ m.derived t ↔ m.IsBase t d) ↔ t.model = m.id ∨ m.derived t = []

/-- The id of a type is all that its derived types are told by. -/
theorem derived_congr {u : EntityRef} (h : u.id = t.id) : m.derived u = m.derived t := by
  rw [derived, derived, h]

/-- An id that no type has is the id of no base. -/
theorem Founded.derived_of_ref?_eq_none (hm : m.Founded) (h : m.ref? t.id = none) :
    m.derived t = [] := by
  rw [List.eq_nil_iff_forall_not_mem]
  intro d hd
  obtain ⟨_, b, hbase, hid⟩ := hm.mem_derived_iff.1 hd
  have href := ref?_of_base? hbase
  rw [hid, h] at href
  cases href

theorem Founded.descent (hm : m.Founded) (t : EntityRef) : m.Descent t := by
  have hsublist : (m.derived t).Sublist m.refs := by
    rw [hm.derived_eq_filter]
    exact List.filter_sublist
  have hown : t.model = m.id → ∀ d ∈ m.refs, d ∈ m.derived t ↔ m.IsBase t d := by
    intro ht d hd
    rw [hm.mem_derived_iff, isBase_iff_of_own ht]
    exact and_iff_right hd
  refine
    { listed := fun d => hm.mem_derived_iff
      order := hsublist
      once := (nodup_refs m).sublist hsublist
      own := hown
      foreign := ?_
      inverse := ?_ }
  · intro ht
    refine ⟨?_, fun d => not_isBase_of_foreign ht⟩
    cases href : m.ref? t.id with
    | none => exact hm.derived_of_ref?_eq_none href
    | some u =>
        obtain ⟨_, _, rfl⟩ := ref?_eq_some_iff.1 href
        exact derived_congr rfl
  · constructor
    · intro hinverse
      by_cases ht : t.model = m.id
      · exact .inl ht
      · refine .inr (List.eq_nil_iff_forall_not_mem.2 fun d hd => ?_)
        exact not_isBase_of_foreign ht ((hinverse d (hsublist.subset hd)).1 hd)
    · rintro (ht | hnil) d hd
      · exact hown ht d hd
      · by_cases ht : t.model = m.id
        · exact hown ht d hd
        · exact iff_of_false (by simp [hnil]) (not_isBase_of_foreign ht)

end Model

namespace Workspace

variable {w : Workspace} {i : ModelId} {m : Model} {steps : List Step}

/-- **Derived types and bases** of the models of any run: the types that are listed, in order and
once each, are those whose base has the id; for a type of the model this is the inverse of the base,
and for another one exactly where nothing is listed. -/
theorem derived_inverts_base (h : FreeRun .empty steps w) (hm : w.model? i = some m)
    (t : EntityRef) : m.Descent t :=
  (Run.founded h empty_models i m hm).descent t

/-- The first type of a model and the first type of another: the one has a derived type. -/
theorem derived_inverts_base_bred : ∃ m, bred.2.model? 0 = some m ∧
    m.Descent ⟨0, 0, "Animal"⟩ ∧ m.Descent ⟨1, 0, "Dog"⟩ ∧
    m.derived ⟨0, 0, "Animal"⟩ = [⟨0, 1, "Cat"⟩] ∧ m.IsBase ⟨0, 0, "Animal"⟩ ⟨0, 1, "Cat"⟩ := by
  have hrun : FreeRun .empty bred.1 bred.2 := Run.carryOn .nil (Option.some_get rfl).symm
  have hm : bred.2.model? 0 = some _ := rfl
  exact ⟨_, hm, derived_inverts_base hrun hm _, derived_inverts_base hrun hm _, rfl, _, rfl, rfl⟩

/-- **A type of another model with derived types**: it has the id of their base, which it is not. -/
theorem derived_answers_for_foreign : FreeRun .empty bred.1 bred.2 ∧
    Gave bred.1 (.type ⟨1, 0, "Dog"⟩) ∧ ∃ m, bred.2.model? 0 = some m ∧
      m.derived ⟨1, 0, "Dog"⟩ = [⟨0, 1, "Cat"⟩] ∧ m.base? ⟨0, 1, "Cat"⟩ = some ⟨0, 0, "Animal"⟩ ∧
      ¬ m.IsBase ⟨1, 0, "Dog"⟩ ⟨0, 1, "Cat"⟩ := by
  have hgave : Gave bred.1 (.type ⟨1, 0, "Dog"⟩) :=
    ⟨⟨.addType 1 "Dog" none, .ok (.type ⟨1, 0, "Dog"⟩)⟩,
      .tail _ (.tail _ (.tail _ (.head _))), rfl⟩
  refine ⟨Run.carryOn .nil (Option.some_get rfl).symm, hgave, _, rfl, rfl, rfl, ?_⟩
  exact Model.not_isBase_of_foreign (by decide)

end Workspace

end ProcedureMapping
