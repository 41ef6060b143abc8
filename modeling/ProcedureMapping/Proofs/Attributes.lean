import ProcedureMapping.Proofs.Frame

/-!
# Attributes

An **attribute** of a procedure is a part of it that remembers the source that configured it: the
name, the schema, an annotation, or a part of a parameter.  A write touches one attribute, its
target, and leaves the stronger of its own and the recorded source there.

A change is **quiet** when it configures nothing at the explicit source.  Nothing that is recorded
at the explicit source gives way to a quiet change, and nothing gets there by one.

Main statements:

* `Procedure.explicit_apply_iff` — a quiet change makes and unmakes nothing explicit;
* `Procedure.keeps_apply` — a quiet change keeps what applies where it is explicit;
* `Procedure.keeps_trans` — keeping goes on through several changes.
-/

namespace ProcedureMapping

/-! ## Sources below the explicit one -/

theorem Source.explicit_of_overrides {s : Source} (h : s.overrides (some .explicit) = true) :
    s = .explicit :=
  explicit_le_iff.1 ((overrides_some _ _).1 h)

/-- A write at a weaker source leaves a record explicit exactly when it was. -/
theorem Source.some_max_eq_explicit_iff {s : Source} {r : Option Source} (hs : s ≠ .explicit) :
    some (s.max r) = some .explicit ↔ r = some .explicit := by
  rw [Option.some.injEq, max_eq_explicit_iff]
  simp [hs]

theorem Tracked.value_eq_of_accepts {α : Type} [BEq α] [LawfulBEq α] {t : Tracked α} {a : α}
    {s : Source} (hs : s ≠ .explicit) (ht : t.source = some .explicit)
    (h : t.accepts a s = true) : t.value = a := by
  rcases Bool.or_eq_true_iff.1 h with hover | hsame
  · rw [ht] at hover
    exact absurd (Source.explicit_of_overrides hover) hs
  · exact eq_of_beq hsame

namespace AnnotationStore

theorem source?_put (store : AnnotationStore) (key other : String) (value : Json.Value)
    (s : Source) : (store.put key value s).source? other =
      if other = key then some (s.max (store.source? key)) else store.source? other := by
  by_cases h : other = key <;> simp [source?, get?_put, h]

theorem value?_put (store : AnnotationStore) (key other : String) (value : Json.Value)
    (s : Source) : (store.put key value s).value? other =
      if other = key then some value else store.value? other := by
  by_cases h : other = key <;> simp [value?, get?_put, h]

theorem source?_discard (store : AnnotationStore) (key other : String) :
    (store.discard key).source? other = if other = key then none else store.source? other := by
  by_cases h : other = key <;> simp [source?, get?_discard, h]

theorem value?_discard (store : AnnotationStore) (key other : String) :
    (store.discard key).value? other = if other = key then none else store.value? other := by
  by_cases h : other = key <;> simp [value?, get?_discard, h]

/-- Whether the values under a key are the same in two stores. -/
def Keeps (store store' : AnnotationStore) (key : String) : Prop :=
  ∃ v v', store.value? key = some v ∧ store'.value? key = some v' ∧ v.same v' = true

variable {store : AnnotationStore} {key other : String} {value : Json.Value} {s : Source}

theorem exists_entry (h : store.source? key = some .explicit) :
    ∃ entry, store.get? key = some entry ∧ entry.source = .explicit := by
  unfold source? at h
  exact Option.map_eq_some_iff.1 h

theorem keeps_refl (h : store.source? key = some .explicit) : store.Keeps store key := by
  obtain ⟨entry, hentry, _⟩ := exists_entry h
  refine ⟨entry.value, entry.value, ?_, ?_, Json.Value.same_refl _⟩ <;> simp [value?, hentry]

theorem keeps_trans {store' store'' : AnnotationStore} (h : store.Keeps store' key)
    (h' : store'.Keeps store'' key) : store.Keeps store'' key := by
  obtain ⟨u, v, hu, hv, huv⟩ := h
  obtain ⟨v', w, hv', hw, hvw⟩ := h'
  have hsame : v = v' := Option.some.inj (hv.symm.trans hv')
  subst hsame
  exact ⟨u, w, hu, hw, Json.Value.same_trans _ _ _ huv hvw⟩

theorem keeps_put (hs : s ≠ .explicit) (haccepts : store.accepts key value s = true)
    (h : store.source? other = some .explicit) : store.Keeps (store.put key value s) other := by
  by_cases hkey : other = key
  · subst hkey
    obtain ⟨entry, hentry, hsource⟩ := exists_entry h
    refine ⟨entry.value, value, by simp [value?, hentry], by simp [value?_put], ?_⟩
    simp only [accepts, hentry, hsource, Bool.or_eq_true] at haccepts
    rcases haccepts with hover | hsame
    · exact absurd (Source.explicit_of_overrides hover) hs
    · exact hsame
  · obtain ⟨v, v', hv, hv', hsame⟩ := keeps_refl h
    exact ⟨v, v', hv, by rw [value?_put, if_neg hkey, hv'], hsame⟩

theorem explicit_put_iff (hs : s ≠ .explicit) :
    (store.put key value s).source? other = some .explicit ↔
      store.source? other = some .explicit := by
  rw [source?_put]
  by_cases hkey : other = key
  · subst hkey
    rw [if_pos rfl]
    exact Source.some_max_eq_explicit_iff hs
  · rw [if_neg hkey]

/-- A removal at a weaker source finds nothing explicit. -/
theorem ne_key_of_releases (hs : s ≠ .explicit) (hreleases : store.releases key s = true)
    (h : store.source? other = some .explicit) : other ≠ key := by
  rintro rfl
  obtain ⟨entry, hentry, hsource⟩ := exists_entry h
  simp only [releases, hentry, hsource] at hreleases
  exact absurd (Source.explicit_of_overrides hreleases) hs

theorem keeps_discard (hs : s ≠ .explicit) (hreleases : store.releases key s = true)
    (h : store.source? other = some .explicit) : store.Keeps (store.discard key) other := by
  have hkey := ne_key_of_releases hs hreleases h
  obtain ⟨v, v', hv, hv', hsame⟩ := keeps_refl h
  exact ⟨v, v', hv, by rw [value?_discard, if_neg hkey, hv'], hsame⟩

theorem explicit_discard_iff (hs : s ≠ .explicit) (hreleases : store.releases key s = true) :
    (store.discard key).source? other = some .explicit ↔
      store.source? other = some .explicit := by
  rw [source?_discard]
  constructor
  · intro h
    split at h
    · cases h
    · exact h
  · intro h
    rw [if_neg (ne_key_of_releases hs hreleases h), h]

end AnnotationStore

/-! ## Parameters -/

namespace Parameter

/-- A part of a parameter that remembers its source. -/
inductive Attribute where
  | declaration
  | storeType
  | typeMapping
  | note (key : String)

/-- The source that an attribute is recorded at. -/
def recorded? (q : Parameter) : Attribute → Option Source
  | .declaration => some q.source
  | .storeType => q.storeType.source
  | .typeMapping => q.typeMapping.source
  | .note key => q.annotations.source? key

/-- Whether what is recorded for an attribute is the same in two states of a parameter. -/
def Keeps (q q' : Parameter) : Attribute → Prop
  | .declaration => True
  | .storeType => q'.storeType.value = q.storeType.value
  | .typeMapping => q'.typeMapping.value = q.typeMapping.value
  | .note key => q.annotations.Keeps q'.annotations key

variable {q q' q'' : Parameter} {w : Write} {s : Source} {a : Attribute}

theorem keeps_refl (h : q.recorded? a = some .explicit) : q.Keeps q a := by
  cases a with
  | declaration => trivial
  | note key => exact AnnotationStore.keeps_refl h
  | _ => rfl

theorem keeps_trans (h : q.Keeps q' a) (h' : q'.Keeps q'' a) : q.Keeps q'' a := by
  cases a with
  | declaration => trivial
  | note key => exact AnnotationStore.keeps_trans h h'
  | _ => exact Eq.trans h' h

theorem explicit_record_iff (hs : s ≠ .explicit) :
    (q.record w s).recorded? a = some .explicit ↔ q.recorded? a = some .explicit := by
  cases w <;> cases a <;> try exact Iff.rfl
  · exact Source.some_max_eq_explicit_iff hs
  · exact Source.some_max_eq_explicit_iff hs
  · exact AnnotationStore.explicit_put_iff hs

theorem keeps_record (hs : s ≠ .explicit) (haccepts : q.accepts w s = true)
    (h : q.recorded? a = some .explicit) : q.Keeps (q.record w s) a := by
  cases w <;> cases a <;> try exact keeps_refl h
  · exact (Tracked.value_eq_of_accepts hs h haccepts).symm
  · exact (Tracked.value_eq_of_accepts hs h haccepts).symm
  · exact AnnotationStore.keeps_put hs haccepts h

end Parameter

/-! ## Procedures -/

namespace Procedure

/-- A part of a procedure that remembers its source. -/
inductive Attribute where
  | name
  | schema
  | note (key : String)
  | parameter (key : String) (part : Parameter.Attribute)

/-- The source that an attribute is recorded at. -/
def recorded? (p : Procedure) : Attribute → Option Source
  | .name => p.name.source
  | .schema => p.schema.source
  | .note key => p.annotations.source? key
  | .parameter key a => (p.findParameter? key).bind (·.recorded? a)

/-- Whether what applies for an attribute is the same in two states of a procedure. -/
def Keeps (settings settings' : ModelSettings) (p p' : Procedure) : Attribute → Prop
  | .name => p'.effectiveName settings' = p.effectiveName settings
  | .schema => p'.effectiveSchema settings' = p.effectiveSchema settings
  | .note key => p.annotations.Keeps p'.annotations key
  | .parameter key a => ∃ q q', p.findParameter? key = some q ∧
      p'.findParameter? key = some q' ∧ q.Keeps q' a

/-- Whether a change configures nothing at the explicit source. -/
def Change.Quiet : Change → Prop
  | .write _ s | .bind _ s => s ≠ .explicit
  | .raise _ | .detach => True

variable {settings settings' settings'' : ModelSettings} {p p' p'' : Procedure}
  {change : Change} {a : Attribute}

/-- Changing a parameter changes the look-up of its name and of no other. -/
theorem findParameter?_modifyParameter (p : Procedure) (key other : String)
    {f : Parameter → Parameter} (hf : ∀ q, (f q).name = q.name) :
    (p.modifyParameter key f).findParameter? other =
      (p.findParameter? other).map fun q => if other = key then f q else q := by
  unfold findParameter? modifyParameter
  dsimp only
  induction p.parameters with
  | nil => rfl
  | cons q rest ih =>
      have hname : (if q.name = key then f q else q).name = q.name := by
        split
        · exact hf q
        · rfl
      rw [List.map_cons, List.find?_cons, List.find?_cons, hname]
      by_cases hother : q.name = other
      · subst hother
        simp
      · have hne : (q.name == other) = false := by simpa using hother
        rw [hne]
        exact ih

theorem keeps_refl (settings : ModelSettings) (h : p.recorded? a = some .explicit) :
    p.Keeps settings settings p a := by
  cases a with
  | note key => exact AnnotationStore.keeps_refl h
  | parameter key a =>
      obtain ⟨q, hq, hrecorded⟩ := Option.bind_eq_some_iff.1 h
      exact ⟨q, q, hq, hq, Parameter.keeps_refl hrecorded⟩
  | _ => rfl

/-- Keeping goes on through several changes. -/
theorem keeps_trans (h : p.Keeps settings settings' p' a)
    (h' : p'.Keeps settings' settings'' p'' a) : p.Keeps settings settings'' p'' a := by
  cases a with
  | note key => exact AnnotationStore.keeps_trans h h'
  | parameter key a =>
      obtain ⟨q, q', hq, hq', hkeeps⟩ := h
      obtain ⟨r, q'', hr, hq'', hkeeps'⟩ := h'
      have hsame : q' = r := Option.some.inj (hq'.symm.trans hr)
      subst hsame
      exact ⟨q, q'', hq, hq'', Parameter.keeps_trans hkeeps hkeeps'⟩
  | _ => exact Eq.trans h' h

/-! ### Quiet changes -/

theorem findParameter?_record (p : Procedure) (key other : String) (v : Parameter.Write)
    (s : Source) : (p.record (.parameter key v) s).findParameter? other =
      (p.findParameter? other).map fun q => if other = key then q.record v s else q :=
  p.findParameter?_modifyParameter key other fun q => q.name_record v s

theorem explicit_parameter_iff {key other : String} {v : Parameter.Write} {s : Source}
    {b : Parameter.Attribute} (hs : s ≠ .explicit) :
    (p.record (.parameter key v) s).recorded? (.parameter other b) = some .explicit ↔
      p.recorded? (.parameter other b) = some .explicit := by
  simp only [recorded?, findParameter?_record]
  cases p.findParameter? other with
  | none => exact Iff.rfl
  | some q =>
      by_cases hkey : other = key
      · simp only [hkey, if_true, Option.map_some, Option.bind_some]
        exact Parameter.explicit_record_iff hs
      · simp [hkey]

/-- An accepted write at a weaker source makes and unmakes nothing explicit. -/
theorem explicit_record_iff {w : Write} {s : Source} (hs : s ≠ .explicit)
    (haccepts : p.accepts settings w s = true) :
    (p.record w s).recorded? a = some .explicit ↔ p.recorded? a = some .explicit := by
  cases w <;> cases a <;> try exact Iff.rfl
  · exact Source.some_max_eq_explicit_iff hs
  · exact Source.some_max_eq_explicit_iff hs
  · exact AnnotationStore.explicit_put_iff hs
  · exact AnnotationStore.explicit_discard_iff hs haccepts
  · exact explicit_parameter_iff hs

theorem keeps_name {value : Option String} {s : Source} (hs : s ≠ .explicit)
    (haccepts : p.acceptsName settings value s = true) (h : p.name.source = some .explicit) :
    (p.record (.name value) s).effectiveName settings = p.effectiveName settings := by
  unfold acceptsName at haccepts
  rw [h] at haccepts
  have hover : s.overrides (some .explicit) = false := by
    rw [Bool.eq_false_iff]
    exact fun hover => hs (Source.explicit_of_overrides hover)
  rw [hover, Bool.false_or, Bool.and_eq_true, Bool.or_eq_true, beq_iff_eq, beq_iff_eq] at haccepts
  obtain ⟨_, hsame | heffective⟩ := haccepts
  · rw [← hsame]
    rfl
  · rw [heffective]
    rfl

theorem keeps_schema {value : Option String} {s : Source} (hs : s ≠ .explicit)
    (haccepts : p.acceptsSchema settings value s = true) (h : p.schema.source = some .explicit) :
    (p.record (.schema value) s).effectiveSchema settings = p.effectiveSchema settings := by
  unfold acceptsSchema at haccepts
  rw [h, Bool.or_eq_true, beq_iff_eq] at haccepts
  rcases haccepts with hover | heffective
  · exact absurd (Source.explicit_of_overrides hover) hs
  · -- A schema that repeats the one that applies is that schema, or there is none at all.
    have hrecord : (p.record (.schema value) s).effectiveSchema settings =
        (value <|> settings.defaultSchema.value) := rfl
    rw [hrecord, ← heffective]
    unfold effectiveSchema
    cases p.schema.value <;> simp

theorem keeps_parameter {key other : String} {v : Parameter.Write} {s : Source}
    {b : Parameter.Attribute} (hs : s ≠ .explicit)
    (haccepts : p.accepts settings (.parameter key v) s = true)
    (h : p.recorded? (.parameter other b) = some .explicit) :
    p.Keeps settings settings (p.record (.parameter key v) s) (.parameter other b) := by
  obtain ⟨q, hq, hrecorded⟩ := Option.bind_eq_some_iff.1 h
  refine ⟨q, if other = key then q.record v s else q, hq, ?_, ?_⟩
  · rw [findParameter?_record, hq]
    rfl
  · by_cases hkey : other = key
    · subst hkey
      have hq' : q.accepts v s = true := by simpa [accepts, hq] using haccepts
      rw [if_pos rfl]
      exact Parameter.keeps_record hs hq' hrecorded
    · rw [if_neg hkey]
      exact Parameter.keeps_refl hrecorded

/-- An accepted write at a weaker source keeps what applies where it is explicit. -/
theorem keeps_record {w : Write} {s : Source} (hs : s ≠ .explicit)
    (haccepts : p.accepts settings w s = true) (h : p.recorded? a = some .explicit) :
    p.Keeps settings settings (p.record w s) a := by
  cases w <;> cases a <;> try exact keeps_refl settings h
  · exact keeps_name hs haccepts h
  · exact keeps_schema hs haccepts h
  · exact AnnotationStore.keeps_put hs haccepts h
  · exact AnnotationStore.keeps_discard hs haccepts h
  · exact keeps_parameter hs haccepts h

section Bound

variable {signature : Signature} {s : Source} (hfree : p.signatureBound = false)
  (hunique : signature.parameters.Nodup)

include hfree hunique

theorem findParameter?_bound {key : String} {q : Parameter}
    (h : (p.bound signature s).findParameter? key = some q) :
    key ∈ signature.parameters ∧ q = .declared key s := by
  obtain ⟨hmem, rfl⟩ := findParameter?_eq_some h
  rw [parameters_bound hfree hunique] at hmem
  obtain ⟨name, hname, rfl⟩ := List.mem_map.1 hmem
  exact ⟨hname, rfl⟩

/-- Of a bound parameter nothing but the declaration is recorded, and that at the source of the
signature. -/
theorem recorded?_bound {r : Source} {key : String} {b : Parameter.Attribute}
    (h : (p.bound signature s).recorded? (.parameter key b) = some r) :
    key ∈ signature.parameters ∧ b = .declaration ∧ r = s := by
  obtain ⟨q, hq, hrecorded⟩ := Option.bind_eq_some_iff.1 h
  obtain ⟨hkey, rfl⟩ := findParameter?_bound hfree hunique hq
  cases b with
  | declaration => exact ⟨hkey, rfl, (Option.some.inj hrecorded).symm⟩
  | _ => cases hrecorded

end Bound

theorem recorded?_undeclared {key : String} {b : Parameter.Attribute} (h : p.parameters = []) :
    p.recorded? (.parameter key b) = none := by
  simp [recorded?, findParameter?, h]

/-- **A quiet change makes and unmakes nothing explicit.** -/
theorem explicit_apply_iff (hallowed : p.Allows settings change) (hquiet : change.Quiet) :
    (p.apply change).recorded? a = some .explicit ↔ p.recorded? a = some .explicit := by
  cases change with
  | write w s =>
      have haccepts : p.accepts settings w s = true := (Bool.and_eq_true_iff.1 hallowed).2
      exact explicit_record_iff hquiet haccepts
  | bind signature s =>
      obtain ⟨hfree, hunique⟩ := hallowed.unbound
      cases a with
      | parameter key b =>
          rw [recorded?_undeclared (p.unbound hfree)]
          constructor
          · intro h
            exact absurd (recorded?_bound hfree hunique h).2.2.symm hquiet
          · intro h
            cases h
      | _ => exact Iff.rfl
  | raise s => cases a <;> exact Iff.rfl
  | detach => cases a <;> exact Iff.rfl

/-- **A quiet change keeps what applies** where it is explicit. -/
theorem keeps_apply (hallowed : p.Allows settings change) (hquiet : change.Quiet)
    (h : p.recorded? a = some .explicit) :
    p.Keeps settings settings (p.apply change) a := by
  cases change with
  | write w s =>
      have haccepts : p.accepts settings w s = true := (Bool.and_eq_true_iff.1 hallowed).2
      exact keeps_record hquiet haccepts h
  | bind signature s =>
      cases a with
      | parameter key b =>
          rw [recorded?_undeclared (p.unbound hallowed.unbound.1)] at h
          cases h
      | _ => exact keeps_refl settings h
  | raise s => cases a <;> exact keeps_refl settings h
  | detach => cases a <;> exact keeps_refl settings h

/-! ### Explicit attributes of explicit procedures -/

/-- Whether only an explicit procedure has explicit attributes. -/
def Linked (p : Procedure) : Prop :=
  ∀ a, p.recorded? a = some .explicit → p.source = .explicit

theorem recorded?_fresh (owner : EntityRef) (op : Operation) (s : Source) (a : Attribute) :
    (fresh owner op s).recorded? a = none := by
  cases a <;> rfl

/-- A change keeps the link if it is quiet or its procedure is explicit. -/
theorem linked_apply (h : p.Linked) (hallowed : p.Allows settings change)
    (hchange : change.Quiet ∨ p.source = .explicit) : (p.apply change).Linked := by
  intro a ha
  rcases hchange with hquiet | hexplicit
  · exact source_apply_explicit (h a ((explicit_apply_iff hallowed hquiet).1 ha))
  · exact source_apply_explicit hexplicit

end Procedure

end ProcedureMapping
