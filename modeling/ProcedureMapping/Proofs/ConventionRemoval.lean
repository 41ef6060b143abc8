import ProcedureMapping.Proofs.Provenance
import ProcedureMapping.Proofs.Removal
import ProcedureMapping.Proofs.Signatures

/-!
# What a convention removes

A convention removes a procedure when its own source overrides that of the procedure as a whole.
The sources of the attributes are not looked at, so what goes with the procedure has to be told from
how it came there.

No source is recorded that nobody has brought: an attribute has its source from an accepted write to
it, or, if it is the declaration of a parameter, from the signature that was bound.  And in a
session only an explicit procedure has explicit attributes.  So a removal never discards explicit
configuration, and one for an attribute of the mapped type discards nothing stronger than itself.
But a plain convention is able to discard what an attribute has asked for: a procedure that plain
conventions have made stays theirs, also after conventions for an attribute have configured it.

Main statements:

* `Procedure.recorded?_apply`, `step_brings` — where the source of an attribute comes from;
* `Run.attested` — every recorded source has been brought;
* `convention_removal_discards` — what a convention discards with a procedure;
* `annotated_name_discarded` — a plain convention discards a name that an attribute has asked for.
-/

namespace ProcedureMapping

/-! ## Where sources come from -/

/-- The source that an entry is recorded at. -/
def Entry.source? : Entry → Option Source
  | text t => t.source
  | mapping t => t.source
  | note entry => entry.map AnnotationEntry.source
  | declared s => some s

namespace Parameter

theorem recorded?_eq (q : Parameter) (a : Attribute) : q.recorded? a = (q.entry a).source? := by
  cases a <;> rfl

theorem Write.source?_leaves (v : Write) (s : Source) : (v.leaves s).source? = some s := by
  cases v <;> rfl

end Parameter

namespace Procedure

variable {settings : ModelSettings} {p : Procedure} {a : Attribute} {w : Write} {s r : Source}

theorem recorded?_eq (p : Procedure) (a : Attribute) :
    p.recorded? a = (p.entryAt? a).bind Entry.source? := by
  cases a with
  | parameter key b =>
      rw [recorded?, entryAt?, Option.bind_map]
      exact Option.bind_congr fun q _ => q.recorded?_eq b
  | _ => rfl

/-- The attribute that a write records its source for; a removal records none. -/
def Write.stamps? : Write → Option Attribute
  | .unannotate _ => none
  | w => some w.target

theorem Write.source?_leaves (w : Write) (s : Source) :
    (w.leaves s).source? = w.stamps?.map fun _ => s := by
  cases w with
  | parameter key v => exact v.source?_leaves s
  | _ => rfl

theorem Write.stamps?_eq (w : Write) : w.stamps? = none ∨ w.stamps? = some w.target := by
  cases w with
  | unannotate => exact .inl rfl
  | _ => exact .inr rfl

/-- A source after a write was recorded before, or it is that of the write. -/
theorem recorded?_record (h : (p.record w s).recorded? a = some r) :
    p.recorded? a = some r ∨ w.stamps? = some a ∧ r = s := by
  by_cases ha : a = w.target
  · subst ha
    rw [recorded?_eq, entryAt?_record_target, Option.bind_map] at h
    obtain ⟨entry, _, hleaves⟩ := Option.bind_eq_some_iff.1 h
    rw [Function.comp_apply, Write.source?_leaves] at hleaves
    obtain ⟨target, hstamps, hmax⟩ := Option.map_eq_some_iff.1 hleaves
    have htarget : w.stamps? = some w.target := by
      rcases w.stamps?_eq with hnone | hsome
      · rw [hnone] at hstamps
        cases hstamps
      · exact hsome
    by_cases hover : s.overrides (p.recorded? w.target) = true
    · rw [Source.max_of_overrides hover] at hmax
      exact .inr ⟨htarget, hmax.symm⟩
    · rw [← hmax, Source.some_max_of_not_overrides hover]
      exact .inl rfl
  · rw [recorded?_eq, entryAt?_record_ne ha, ← recorded?_eq] at h
    exact .inl h

/-- **Where the source of an attribute comes from**: it was there before, or a write or a signature
brings it. -/
theorem recorded?_apply {settings : ModelSettings} {change : Change}
    (hallowed : p.Allows settings change) (h : (p.apply change).recorded? a = some r) :
    p.recorded? a = some r ∨ (∃ w, change = .write w r ∧ w.stamps? = some a) ∨
      ∃ signature key, change = .bind signature r ∧ key ∈ signature.parameters ∧
        a = .parameter key .declaration := by
  cases change with
  | write w s =>
      rcases recorded?_record h with hbefore | ⟨hstamps, rfl⟩
      · exact .inl hbefore
      · exact .inr (.inl ⟨w, rfl, hstamps⟩)
  | bind signature s =>
      cases a with
      | parameter key b =>
          obtain ⟨hfree, hunique⟩ := hallowed.unbound
          obtain ⟨hkey, rfl, rfl⟩ := recorded?_bound hfree hunique h
          exact .inr (.inr ⟨signature, key, rfl, hkey, rfl⟩)
      | _ => exact .inl h
  | raise s => exact .inl (by cases a <;> exact h)
  | detach => exact .inl (by cases a <;> exact h)

end Procedure

/-- Whether a step has brought an attribute at source `s`: by a write that was accepted, or by a
signature that declares a parameter. -/
def Step.Brings (ref : ProcedureRef) (a : Procedure.Attribute) (s : Source) (step : Step) : Prop :=
  step.granted = true ∧
    ((∃ write, step.command.request? ref = some (write, s) ∧ write.stamps? = some a) ∨
      ∃ signature key, step.command.binding? ref = some (signature, s) ∧
        key ∈ signature.parameters ∧ a = .parameter key .declaration)

namespace Workspace

variable {w w' : Workspace} {c : Command} {answer : Except Error Outcome} {ref : ProcedureRef}
  {m m' : Model} {p p' : Procedure} {steps : List Step} {a : Procedure.Attribute} {r : Source}

theorem granted_of_binding {binding : Signature × Source} {o : Outcome}
    (hbinding : c.binding? ref = some binding) (h : w.execute c = some (w', .ok o)) :
    (⟨c, .ok o⟩ : Step).granted = true := by
  rw [execute_binding hbinding] at h
  obtain ⟨_, _, _, _, hchange, _⟩ := changeProcedure_ok h
  obtain ⟨_, _, heq⟩ := map_eq_ok_iff.1 hchange
  cases heq
  rfl

/-- **A source after a step** was recorded before, or the step has brought it. -/
theorem step_brings (hsingle : c.isSingle = true) (does : w.execute c = some (w', answer))
    (hp' : w'.procedure? ref = some (m', p')) (h : p'.recorded? a = some r) :
    (∃ m p, w.procedure? ref = some (m, p) ∧ p.recorded? a = some r) ∨
      Step.Brings ref a r ⟨c, answer⟩ := by
  cases answer with
  | error x =>
      obtain rfl := execute_error hsingle does
      exact .inl ⟨m', p', hp', h⟩
  | ok o =>
      rcases (execute_effect hsingle does).procedure_before hp' with
        ⟨m, p, hp, ⟨_, rfl⟩ | ⟨e, hmakes, hallowed, _, rfl | ⟨change, hacts, rfl⟩⟩⟩ |
          ⟨_, _, owner, op, s, rfl, _⟩
      · exact .inl ⟨m, p', hp, h⟩
      · exact .inl ⟨m, p', hp, h⟩
      · have hallows := hacts.allows hallowed (procedure?_eq_some_iff.1 hp).2
        rcases Procedure.recorded?_apply hallows h with
          hbefore | ⟨write, rfl, hstamps⟩ | ⟨signature, key, rfl, hkey, rfl⟩
        · exact .inl ⟨m, p, hp, hbefore⟩
        · cases hacts
          have haccepts := (Bool.and_eq_true_iff.1 hallows).2
          have hgranted := (execute_granted hmakes.request does hp).2.trans haccepts
          exact .inr ⟨hgranted, .inl ⟨write, hmakes.request, hstamps⟩⟩
        · cases hacts
          exact .inr ⟨granted_of_binding hmakes.binding does,
            .inr ⟨signature, key, hmakes.binding, hkey, rfl⟩⟩
      · rw [Procedure.recorded?_fresh] at h
        cases h

/-- **Every recorded source has been brought**, to the attribute that it is recorded for. -/
theorem Run.attested {ok : List Step → Command → Prop} (h : Run ok .empty steps w)
    (hp : w.procedure? ref = some (m, p)) (hr : p.recorded? a = some r) :
    ∃ step ∈ steps, step.Brings ref a r := by
  induction h generalizing m p with
  | nil => cases hp
  | snoc _ single _ does ih =>
      rcases step_brings single does hp hr with ⟨m₁, p₁, hp₁, hr₁⟩ | hbrings
      · obtain ⟨step, hstep, hbrings⟩ := ih hp₁ hr₁
        exact ⟨step, List.mem_append_left _ hstep, hbrings⟩
      · exact ⟨_, by simp, hbrings⟩

/-! ## Removals -/

/-- What a convention, with or without an attribute of the mapped type as `da` says, discards when
it removes the procedure `p` after the steps `steps`. -/
structure Discards (steps : List Step) (ref : ProcedureRef) (p : Procedure) (da : Bool) :
    Prop where
  source : p.source ≤ .ofConvention da
  spared : ∀ a, p.recorded? a ≠ some .explicit
  stronger : ∀ a r, p.recorded? a = some r → ¬ r ≤ .ofConvention da →
    da = false ∧ p.source = .convention ∧ r = .annotated ∧
      ∃ step ∈ steps, step.Brings ref a .annotated

/-- **What a convention discards with a procedure** that it removes in a session.  The procedure
itself is no stronger than the convention, and nothing about it is explicit.  What is stronger than
the convention has been asked for by an attribute of the mapped type, by a call that was accepted,
and it is discarded by plain conventions only. -/
theorem convention_removal_discards {reg : RegistryRef} {owner : EntityRef} {op : Operation}
    {da : Bool} (hsession : Session steps w)
    (hdoes : w.execute (.removeConvention reg owner op da) =
      some (w', .ok (.procedure (some ref)))) :
    ∃ m p, w.procedure? ref = some (m, p) ∧ Discards steps ref p da := by
  obtain ⟨m, hm, ⟨recorded, hsource, hle, _, heq⟩ | ⟨_, _, heq⟩⟩ :=
    execute_removeConvention hdoes
  · obtain ⟨i, hi, rfl⟩ := Option.map_eq_some_iff.1 (Outcome.procedure.inj heq).symm
    rw [Model.declaredSource?, hi, Option.bind_some] at hsource
    obtain ⟨p, hget, rfl⟩ := Option.map_eq_some_iff.1 hsource
    have hp : w.procedure? ⟨reg.model, i⟩ = some (m, p) := procedure?_eq_some_iff.2 ⟨hm, hget⟩
    have hspared : ∀ a, p.recorded? a ≠ some .explicit := by
      intro a ha
      rw [(Session.guarded hsession hp).linked a ha, Source.explicit_le_iff] at hle
      exact Source.ofConvention_ne_explicit da hle
    refine ⟨m, p, hp, hle, hspared, ?_⟩
    intro a r hr hstronger
    have hbrought := Run.attested hsession hp hr
    cases r with
    | convention => exact absurd (Nat.zero_le _) hstronger
    | explicit => exact absurd hr (hspared a)
    | annotated =>
        cases da with
        | true => exact absurd (Source.le_refl _) hstronger
        | false => exact ⟨rfl, Source.le_antisymm hle (Nat.zero_le _), rfl, hbrought⟩
  · cases heq

/-- A procedure that a plain convention has made and a convention for an attribute has named. -/
def annotatedName : List Step × Workspace :=
  (carryOn (IsOpen []) [] .empty
    [.createModel .standard, .addType 0 "Blog" none, .createRegistry 0,
      .setConvention ⟨0, 0⟩ 0 ⟨0, 0, "Blog"⟩ .insert false,
      .suggest ⟨0, 0⟩ (.name (some "Upsert")) true]).get rfl

/-- The same after a plain convention has removed the procedure. -/
def nameDiscarded : Workspace :=
  ((annotatedName.2.execute
    (.removeConvention ⟨0, 0⟩ ⟨0, 0, "Blog"⟩ .insert false)).get rfl).1

theorem convention_removal_discards_annotated :
    Session annotatedName.1 annotatedName.2 ∧
    annotatedName.2.execute (.removeConvention ⟨0, 0⟩ ⟨0, 0, "Blog"⟩ .insert false) =
      some (nameDiscarded, .ok (.procedure (some ⟨0, 0⟩))) ∧
    ∃ m p, annotatedName.2.procedure? ⟨0, 0⟩ = some (m, p) ∧
      Discards annotatedName.1 ⟨0, 0⟩ p false := by
  have hsession : Session annotatedName.1 annotatedName.2 :=
    Run.carryOn .nil (Option.some_get rfl).symm
  have hdoes : annotatedName.2.execute
      (.removeConvention ⟨0, 0⟩ ⟨0, 0, "Blog"⟩ .insert false) =
      some (nameDiscarded, .ok (.procedure (some ⟨0, 0⟩))) := rfl
  exact ⟨hsession, hdoes, convention_removal_discards hsession hdoes⟩

/-- **A plain convention discards a name that an attribute has asked for**, by a call that is open
to it. -/
theorem annotated_name_discarded : Session annotatedName.1 annotatedName.2 ∧
    IsOpen [] annotatedName.1 (.removeConvention ⟨0, 0⟩ ⟨0, 0, "Blog"⟩ .insert false) ∧
    annotatedName.2.execute (.removeConvention ⟨0, 0⟩ ⟨0, 0, "Blog"⟩ .insert false) =
      some (nameDiscarded, .ok (.procedure (some ⟨0, 0⟩))) ∧
    ∃ m p, annotatedName.2.procedure? ⟨0, 0⟩ = some (m, p) ∧
      p.recorded? .name = some .annotated ∧ ¬ Source.annotated ≤ .ofConvention false :=
  ⟨Run.carryOn .nil (Option.some_get rfl).symm, by decide, rfl, _, _, rfl, rfl, by decide⟩

end Workspace

end ProcedureMapping
