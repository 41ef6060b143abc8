import ProcedureMapping.Proofs.Annotations

/-!
# Recorded sources rise

Each part of the metadata that is configured remembers the strongest source that has configured
it, and no command weakens this record: not a write that is accepted or rejected, not one that
clears the value, and not one that fails.  The records of a state are **above** those of any earlier
state.  An unset record is below all sources, so what has once been configured stays so.

Annotations are the exception, and only where they are removed.  Between two removals the source of
an annotation rises as well.

Main statements:

* `Procedure.above_apply` — a change of a procedure weakens nothing;
* `AnnotationStore.level_take` — nor does a call on annotations, but for a removal;
* `sources_rise` — the records of two states of a run.
-/

namespace ProcedureMapping

/-! ## Levels -/

/-- The height of a record: an unset one is below every source. -/
def Source.level : Option Source → Nat
  | none => 0
  | some s => s.rank + 1

open Source (level)

namespace Source

theorem level_eq_zero_iff {r : Option Source} : level r = 0 ↔ r = none := by
  cases r <;> simp [level]

theorem level_some_le_iff {s t : Source} : level (some s) ≤ level (some t) ↔ s ≤ t := by
  rw [level, level, Nat.add_le_add_iff_right, le_iff]

/-- What is above a record that was set is set. -/
theorem ne_none_of_level_le {r r' : Option Source} (h : level r ≤ level r') (hr : r ≠ none) :
    r' ≠ none := by
  rintro rfl
  exact hr (level_eq_zero_iff.1 (Nat.le_zero.1 h))

/-- What a write leaves is not below what was recorded. -/
theorem level_le_max (s : Source) (r : Option Source) : level r ≤ level (some (s.max r)) := by
  cases r with
  | none => exact Nat.zero_le _
  | some t => exact level_some_le_iff.2 (le_max_right s t)

end Source

/-! ## Annotations -/

namespace AnnotationStore

/-- **A call weakens no annotation**, unless it is a removal of it that is accepted. -/
theorem level_take {store : AnnotationStore} {r : Reply} (hanswers : store.Answers r)
    (key : String) : level (store.source? key) ≤ level ((store.take r.edit).2.source? key) ∨
      r.clears key = true := by
  obtain ⟨e, accepted⟩ := r
  unfold source?
  rw [get?_take]
  by_cases hkey : key = e.name
  · subst hkey
    rw [if_pos rfl]
    cases hget : store.get? e.name with
    | none => exact .inl (Nat.zero_le _)
    | some a =>
        cases e with
        | write name value s =>
            left
            rw [Edit.leaves]
            split
            · exact Source.level_le_max s (some a.source)
            · exact Nat.le_refl _
        | remove name s =>
            by_cases hover : s.overrides (some a.source) = true
            · -- The annotation goes, so the removal has been answered with yes.
              right
              have hle : a.source ≤ s := (Source.overrides_some _ _).1 hover
              rcases hanswers with hsame | ⟨_, _, heq, hnone⟩
              · have haccepted : accepted = true := hsame.trans (take_remove_iff.2 ⟨a, hget, hle⟩)
                simp [Reply.clears, Edit.name, haccepted]
              · cases heq
                rw [Edit.name, hnone] at hget
                cases hget
            · left
              rw [Edit.leaves, if_neg hover]
  · rw [if_neg hkey]
    exact .inl (Nat.le_refl _)

end AnnotationStore

/-! ## Procedures -/

def Parameter.Attribute.isNote : Parameter.Attribute → Bool
  | note _ => true
  | _ => false

/-- Whether an attribute is an annotation. -/
def Procedure.Attribute.isNote : Procedure.Attribute → Bool
  | note _ => true
  | parameter _ part => part.isNote
  | _ => false

/-- A write to a parameter weakens nothing. -/
theorem Parameter.level_record {q : Parameter} {w : Write} {s : Source} {a : Attribute}
    (ha : a.isNote = false) : level (q.recorded? a) ≤ level ((q.record w s).recorded? a) := by
  cases w with
  | storeType text =>
      cases a with
      | storeType => exact Source.level_le_max s q.storeType.source
      | note key => cases ha
      | _ => exact Nat.le_refl _
  | typeMapping mapping =>
      cases a with
      | typeMapping => exact Source.level_le_max s q.typeMapping.source
      | note key => cases ha
      | _ => exact Nat.le_refl _
  | annotate key value =>
      cases a with
      | note key => cases ha
      | _ => exact Nat.le_refl _

namespace Procedure

variable {settings : ModelSettings} {p p' p'' : Procedure} {change : Change} {w : Write}
  {s : Source} {a : Attribute}

/-- Whether the records of `p'` are above those of `p`; the source that has declared a parameter
stays the same. -/
structure Above (p p' : Procedure) : Prop where
  source : p.source ≤ p'.source
  recorded : ∀ a, a.isNote = false → level (p.recorded? a) ≤ level (p'.recorded? a)
  declared : ∀ key q, p.findParameter? key = some q →
    ∃ q', p'.findParameter? key = some q' ∧ q'.source = q.source

theorem Above.refl (p : Procedure) : p.Above p where
  source := Source.le_refl _
  recorded _ _ := Nat.le_refl _
  declared _ q hq := ⟨q, hq, rfl⟩

theorem Above.trans (h : p.Above p') (h' : p'.Above p'') : p.Above p'' where
  source := Source.le_trans h.source h'.source
  recorded a ha := Nat.le_trans (h.recorded a ha) (h'.recorded a ha)
  declared key q hq := by
    obtain ⟨q', hq', hsame⟩ := h.declared key q hq
    obtain ⟨q'', hq'', hsame'⟩ := h'.declared key q' hq'
    exact ⟨q'', hq'', hsame'.trans hsame⟩

theorem level_record (ha : a.isNote = false) :
    level (p.recorded? a) ≤ level ((p.record w s).recorded? a) := by
  cases a with
  | note key => cases ha
  | name =>
      cases w with
      | name text => exact Source.level_le_max s p.name.source
      | _ => exact Nat.le_refl _
  | schema =>
      cases w with
      | schema text => exact Source.level_le_max s p.schema.source
      | _ => exact Nat.le_refl _
  | parameter key part =>
      cases w with
      | parameter other v =>
          rw [recorded?, recorded?, findParameter?_record]
          cases p.findParameter? key with
          | none => exact Nat.le_refl _
          | some q =>
              by_cases hkey : key = other
              · simpa [hkey] using Parameter.level_record ha
              · simp [hkey]
      | _ => exact Nat.le_refl _

theorem declared_record {key : String} {q : Parameter} (hq : p.findParameter? key = some q) :
    ∃ q', (p.record w s).findParameter? key = some q' ∧ q'.source = q.source := by
  cases w with
  | parameter other v =>
      rw [findParameter?_record, hq]
      by_cases hkey : key = other
      · exact ⟨q.record v s, by simp [hkey], q.source_record v s⟩
      · exact ⟨q, by simp [hkey], rfl⟩
  | _ => exact ⟨q, hq, rfl⟩

/-- **A change of a procedure weakens nothing.** -/
theorem above_apply (hallowed : p.Allows settings change) : p.Above (p.apply change) := by
  cases change with
  | write w s =>
      refine ⟨?_, fun _ => level_record, fun _ _ => declared_record⟩
      rw [apply, source_record]
      exact Source.le_refl _
  | bind signature s =>
      -- Parameters are bound where there were none.
      have hnone : p.parameters = [] := p.unbound hallowed.unbound.1
      refine ⟨Source.le_refl _, ?_, ?_⟩
      · intro a _
        cases a with
        | parameter key part =>
            rw [recorded?_undeclared hnone]
            exact Nat.zero_le _
        | _ => exact Nat.le_refl _
      · intro key q hq
        simp [findParameter?, hnone] at hq
  | raise s =>
      refine ⟨Source.le_max_right s p.source, ?_, fun _ q hq => ⟨q, hq, rfl⟩⟩
      intro a _
      cases a <;> exact Nat.le_refl _
  | detach =>
      refine ⟨Source.le_refl _, ?_, fun _ q hq => ⟨q, hq, rfl⟩⟩
      intro a _
      cases a <;> exact Nat.le_refl _

end Procedure

/-! ## Workspaces -/

theorem Model.level_defaultSchema_apply (m : Model) (e : Change) :
    level m.settings.defaultSchema.source ≤ level (m.apply e).settings.defaultSchema.source := by
  rcases m.defaultSchema_apply e with hsame | ⟨text, s, rfl⟩
  · rw [hsame]
  · exact Source.level_le_max s m.settings.defaultSchema.source

namespace Workspace

variable {w w' : Workspace} {c : Command} {ref : ProcedureRef} {i : ModelId} {m : Model}
  {p : Procedure} {past more : List Step} {place : Place} {store : AnnotationStore}
  {ok : List Step → Command → Prop}

theorem Effect.above (h : w.Effect c w') (hp : w.procedure? ref = some (m, p)) :
    ∃ m' p', w'.procedure? ref = some (m', p') ∧ p.Above p' := by
  obtain ⟨m', p', hp', hafter⟩ := h.procedure_after hp
  refine ⟨m', p', hp', ?_⟩
  rcases hafter with ⟨_, rfl⟩ | ⟨e, _, hallowed, _, rfl | ⟨change, hacts, rfl⟩⟩
  · exact .refl _
  · exact .refl _
  · exact Procedure.above_apply (hacts.allows hallowed (procedure?_eq_some_iff.1 hp).2)

theorem Run.above (h : Run ok w more w') (hp : w.procedure? ref = some (m, p)) :
    ∃ m' p', w'.procedure? ref = some (m', p') ∧ p.Above p' := by
  induction h with
  | nil => exact ⟨m, p, hp, .refl p⟩
  | snoc _ single _ does ih =>
      obtain ⟨m₁, p₁, hp₁, habove⟩ := ih
      obtain ⟨m₂, p₂, hp₂, habove'⟩ := (execute_effect single does).above hp₁
      exact ⟨m₂, p₂, hp₂, habove.trans habove'⟩

theorem Run.level_defaultSchema (h : Run ok w more w') (hm : w.model? i = some m) :
    ∃ m', w'.model? i = some m' ∧
      level m.settings.defaultSchema.source ≤ level m'.settings.defaultSchema.source := by
  induction h with
  | nil => exact ⟨m, hm, Nat.le_refl _⟩
  | snoc _ single _ does ih =>
      obtain ⟨m₁, hm₁, hle⟩ := ih
      rcases (execute_effect single does).model_after hm₁ with hsame | ⟨e, _, _, hafter⟩
      · exact ⟨m₁, hsame, hle⟩
      · exact ⟨_, hafter, Nat.le_trans hle (m₁.level_defaultSchema_apply e)⟩

/-- A place keeps its annotations and their sources, but for those that are removed. -/
theorem Run.level_annotation (h : Run ok w more w') (hnumbered : w.Numbered)
    (hstore : w.annotations? place = some store) :
    ∃ store', w'.annotations? place = some store' ∧ ∀ key,
      level (store.source? key) ≤ level (store'.source? key) ∨
        ∃ r ∈ replies place more, r.clears key = true := by
  induction h with
  | nil => exact ⟨store, hstore, fun _ => .inl (Nat.le_refl _)⟩
  | @snoc steps v v' c a before single _ does ih =>
      obtain ⟨store₁, hstore₁, hle⟩ := ih
      have hstep := step_replies (Run.numbered before hnumbered) single does place
      rw [replies_append]
      cases hreply : Step.reply? place ⟨c, a⟩ with
      | none =>
          rw [hreply] at hstep
          refine ⟨store₁, ?_, by simpa using hle⟩
          rcases hstep with hsame | ⟨hnone, _⟩
          · rw [hsame, hstore₁]
          · rw [hstore₁] at hnone
            cases hnone
      | some r =>
          rw [hreply] at hstep
          obtain ⟨store₂, hstore₂, hanswers, hafter⟩ := hstep
          obtain rfl : store₁ = store₂ := Option.some.inj (hstore₁.symm.trans hstore₂)
          refine ⟨_, hafter, ?_⟩
          intro key
          rcases AnnotationStore.level_take hanswers key with hstep | hclears
          · refine (hle key).imp (fun hle => Nat.le_trans hle hstep) ?_
            rintro ⟨earlier, hearlier, hclears⟩
            exact ⟨earlier, List.mem_append_left _ hearlier, hclears⟩
          · exact .inr ⟨r, by simp, hclears⟩

/-- What a run does to the sources that are recorded: it weakens none of them, but for annotations
that it removes.  What has been configured stays so, with or without a value. -/
structure Rises (w w' : Workspace) (more : List Step) : Prop where
  procedures : ∀ ref m p, w.procedure? ref = some (m, p) →
    ∃ m' p', w'.procedure? ref = some (m', p') ∧ p.Above p' ∧
      ∀ a, a.isNote = false → p.recorded? a ≠ none → p'.recorded? a ≠ none
  defaultSchemas : ∀ i m, w.model? i = some m → ∃ m', w'.model? i = some m' ∧
    level m.settings.defaultSchema.source ≤ level m'.settings.defaultSchema.source ∧
      (m.settings.defaultSchema.source ≠ none → m'.settings.defaultSchema.source ≠ none)
  annotations : ∀ place store, w.annotations? place = some store →
    ∃ store', w'.annotations? place = some store' ∧ ∀ key,
      level (store.source? key) ≤ level (store'.source? key) ∨
        ∃ r ∈ replies place more, r.clears key = true

/-- **Recorded sources only move upward**, from any state to any later one. -/
theorem sources_rise (hpast : FreeRun .empty past w) (hmore : FreeRun w more w') :
    Rises w w' more := by
  refine ⟨?_, ?_, ?_⟩
  · intro ref m p hp
    obtain ⟨m', p', hp', habove⟩ := Run.above hmore hp
    exact ⟨m', p', hp', habove, fun a ha => Source.ne_none_of_level_le (habove.recorded a ha)⟩
  · intro i m hm
    obtain ⟨m', hm', hle⟩ := Run.level_defaultSchema hmore hm
    exact ⟨m', hm', hle, Source.ne_none_of_level_le hle⟩
  · intro place store hstore
    exact Run.level_annotation hmore (Run.numbered hpast empty_models) hstore

/-- A procedure that a convention has named. -/
def suggestedName : List Step × Workspace :=
  (carryOn (fun _ _ => True) [] .empty
    [.createModel .standard, .addType 0 "Blog" none, .createRegistry 0,
      .set ⟨0, 0⟩ ⟨0, 0, "Blog"⟩ .insert,
      .suggest ⟨0, 0⟩ (.name (some "Blog_Add")) true]).get rfl

/-- The name is cleared, and the convention proposes it again. -/
def clearedName : List Step × Workspace :=
  (carryOn (fun _ _ => True) [] suggestedName.2
    [.configure ⟨0, 0⟩ .defaultName, .suggest ⟨0, 0⟩ (.name (some "Blog_Add")) true]).get rfl

/-- There is no name any more, but its record is explicit. -/
theorem sources_rise_cleared : Rises suggestedName.2 clearedName.2 clearedName.1 ∧
    ∃ m p m' p', suggestedName.2.procedure? ⟨0, 0⟩ = some (m, p) ∧
      p.recorded? .name = some .annotated ∧
      clearedName.2.procedure? ⟨0, 0⟩ = some (m', p') ∧ p'.name = ⟨none, some .explicit⟩ := by
  have hpast : FreeRun .empty suggestedName.1 suggestedName.2 :=
    Run.carryOn .nil (Option.some_get rfl).symm
  have hmore : FreeRun suggestedName.2 clearedName.1 clearedName.2 :=
    Run.carryOn .nil (Option.some_get rfl).symm
  exact ⟨sources_rise hpast hmore, _, _, _, _, rfl, rfl, rfl, rfl⟩

end Workspace

end ProcedureMapping
