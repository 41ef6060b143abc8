import ProcedureMapping.Proofs.Attributes
import ProcedureMapping.Proofs.Ledger

/-!
# Conventions and explicit configuration

A convention writes below the explicit source, and so nothing that user code has configured gives
way to it, however many conventions run and in whatever order.

Two things carry this.  Every change that a convention makes is **weak**: whatever it records, it
records below the explicit source.  And in a session only an explicit procedure has explicit
attributes, because the handle to configure one explicitly comes from a `set`, which makes the
procedure explicit first; so no convention is able to remove it.

Main statements:

* `Effect.spares`, `Run.spares` — what a convention, and a run of them, leaves of a record;
* `Session.guarded` — only explicit procedures have explicit attributes;
* `conventions_spare` — conventions cannot touch explicit configuration.
-/

namespace ProcedureMapping

theorem Source.ofConvention_ne_explicit (da : Bool) : Source.ofConvention da ≠ .explicit := by
  cases da <;> decide

/-- Whether a command belongs to conventions. -/
def Command.isConvention : Command → Bool
  | setConvention .. | removeConvention .. | suggest .. | suggestSignature .. => true
  | _ => false

/-! ## Weak changes -/

/-- Whether a change of a procedure is one that a convention makes: at a source below the explicit
one. -/
def Procedure.Change.Weak : Procedure.Change → Prop
  | .write _ s | .bind _ s | .raise s => s ≠ .explicit
  | .detach => False

/-- Whether a change of a model is one that a convention makes. -/
def Model.Change.Weak : Model.Change → Prop
  | .create _ _ _ s | .vacate _ _ _ s => s ≠ .explicit
  | .procedure _ change => change.Weak
  | _ => False

theorem Command.Makes.weak {c : Command} {i : ModelId} {e : Model.Change} (h : c.Makes i e)
    (hc : c.isConvention = true) : e.Weak := by
  cases h with
  | setConventionNew | setConventionAgain | removeConvention | suggest | suggestSignature =>
      exact Source.ofConvention_ne_explicit _
  | _ => cases hc

theorem Procedure.Change.Weak.quiet {change : Procedure.Change} (h : change.Weak) :
    change.Quiet := by
  cases change with
  | write | bind => exact h
  | raise | detach => trivial

/-- A weak change makes no procedure explicit. -/
theorem Procedure.source_apply_weak {p : Procedure} {change : Procedure.Change}
    (h : change.Weak) : (p.apply change).source = .explicit ↔ p.source = .explicit := by
  rcases p.source_apply change with hsame | ⟨s, rfl, hraised⟩
  · rw [hsame]
  · have hs : s ≠ .explicit := h
    rw [hraised, Source.max_eq_explicit_iff, Option.some.injEq]
    simp [hs]

namespace Model

variable {m : Model} {e : Change}

theorem settings_apply_weak (h : e.Weak) : (m.apply e).settings = m.settings := by
  cases e with
  | vacate r owner op s =>
      rcases m.vacate_cases r owner op s with hm | ⟨_, _, hm⟩ <;> rw [hm]
  | create | procedure => rfl
  | _ => exact h.elim

/-- A weak removal finds nothing explicit. -/
theorem not_explicit_of_vacate {r : RegistryId} {owner : EntityRef} {op : Operation}
    {s : Source} {i : ProcedureId} {p : Procedure} (hs : s ≠ .explicit)
    (hallowed : m.Allows (.vacate r owner op s))
    (hslot : (m.registry r).get? ⟨owner.id, op⟩ = some i) (hp : m.procedures[i]? = some p) :
    p.source ≠ .explicit := by
  intro hexplicit
  obtain ⟨_, _, hover⟩ := hallowed
  have hover' : s.overrides (some p.source) = true := hover i p hslot hp
  rw [hexplicit] at hover'
  exact hs (Source.explicit_of_overrides hover')

/-- A weak change leaves an explicit record in its slot. -/
theorem slot_apply_weak (hweak : e.Weak) (hallowed : m.Allows e) {r : RegistryId} {slot : Slot}
    {i : ProcedureId} {p : Procedure} (hslot : (m.registry r).get? slot = some i)
    (hp : m.procedures[i]? = some p) (hexplicit : p.source = .explicit) :
    ((m.apply e).registry r).get? slot = some i := by
  rcases m.slot_apply e r slot with
    hsame | ⟨owner, op, s, rfl, rfl, _⟩ | ⟨owner, op, s, rfl, rfl, _⟩
  · rw [hsame, hslot]
  · obtain ⟨_, _, hfree⟩ := hallowed
    rw [hslot] at hfree
    cases hfree
  · exact absurd hexplicit (not_explicit_of_vacate hweak hallowed hslot hp)

end Model

/-! ## What is spared -/

namespace Workspace

variable {w v w' : Workspace} {c : Command} {ref : ProcedureRef}

/-- What is the same of a record in two states of a workspace: whether it is explicit, where it
sits if it is, which of its attributes are explicit, and what applies for those. -/
structure Spares (w w' : Workspace) (ref : ProcedureRef) (m : Model) (p : Procedure) (m' : Model)
    (p' : Procedure) : Prop where
  source : p'.source = .explicit ↔ p.source = .explicit
  place : p.source = .explicit → p'.removed = p.removed ∧
    ∀ reg slot, w.slot? reg slot = some ref → w'.slot? reg slot = some ref
  recorded : ∀ a, p'.recorded? a = some .explicit ↔ p.recorded? a = some .explicit
  kept : ∀ a, p.recorded? a = some .explicit → p.Keeps m.settings m'.settings p' a

theorem Spares.refl (w : Workspace) (ref : ProcedureRef) (m : Model) (p : Procedure) :
    Spares w w ref m p m p where
  source := Iff.rfl
  place _ := ⟨rfl, fun _ _ hslot => hslot⟩
  recorded _ := Iff.rfl
  kept _ h := Procedure.keeps_refl m.settings h

theorem Spares.trans {m m' m'' : Model} {p p' p'' : Procedure}
    (h : Spares w v ref m p m' p') (h' : Spares v w' ref m' p' m'' p'') :
    Spares w w' ref m p m'' p'' where
  source := h'.source.trans h.source
  place := by
    intro hexplicit
    obtain ⟨hremoved, hplace⟩ := h.place hexplicit
    obtain ⟨hremoved', hplace'⟩ := h'.place (h.source.2 hexplicit)
    exact ⟨hremoved'.trans hremoved, fun reg slot hslot => hplace' reg slot (hplace reg slot hslot)⟩
  recorded a := (h'.recorded a).trans (h.recorded a)
  kept := by
    intro a ha
    have hafter : p'.recorded? a = some .explicit := (h.recorded a).2 ha
    exact Procedure.keeps_trans (h.kept a ha) (h'.kept a hafter)

/-- The record itself after a weak change that acts on it. -/
theorem spares_record {m : Model} {p q : Procedure} {e : Model.Change} {i : ProcedureId}
    (hp : m.procedures[i]? = some p) (hweak : e.Weak) (hallowed : m.Allows e)
    (hafter : q = p ∨ ∃ change, m.Acts e i change ∧ q = p.apply change) :
    (q.source = .explicit ↔ p.source = .explicit) ∧
      (p.source = .explicit → q.removed = p.removed) ∧
      (∀ a, q.recorded? a = some .explicit ↔ p.recorded? a = some .explicit) ∧
      ∀ a, p.recorded? a = some .explicit → p.Keeps m.settings m.settings q a := by
  rcases hafter with rfl | ⟨change, hacts, rfl⟩
  · exact ⟨Iff.rfl, fun _ => rfl, fun _ => Iff.rfl, fun _ h => Procedure.keeps_refl _ h⟩
  cases hacts with
  | procedure =>
      have hallows := hallowed.procedure hp
      have hquiet : change.Quiet := Procedure.Change.Weak.quiet hweak
      refine ⟨Procedure.source_apply_weak hweak, ?_, ?_, ?_⟩
      · intro _
        rw [Bool.eq_iff_iff, Procedure.removed_apply]
        have hkept : change ≠ .detach := by
          rintro rfl
          exact hweak
        simp [hkept]
      · exact fun a => Procedure.explicit_apply_iff hallows hquiet
      · exact fun a ha => Procedure.keeps_apply hallows hquiet ha
  | vacate held =>
      have hslot := (Model.declared?_eq_some held).2
      have hloose : p.source ≠ .explicit :=
        Model.not_explicit_of_vacate hweak hallowed hslot hp
      refine ⟨Iff.rfl, fun hexplicit => absurd hexplicit hloose, ?_, ?_⟩
      · intro a
        cases a <;> exact Iff.rfl
      · intro a ha
        cases a <;> exact Procedure.keeps_refl m.settings ha

/-- **A convention spares** what is explicit. -/
theorem Effect.spares {m : Model} {p : Procedure} (h : w.Effect c w')
    (hc : c.isConvention = true) (hp : w.procedure? ref = some (m, p)) :
    ∃ m' p', w'.procedure? ref = some (m', p') ∧ Spares w w' ref m p m' p' := by
  obtain ⟨hm, hget⟩ := procedure?_eq_some_iff.1 hp
  cases h with
  | same => exact ⟨m, p, hp, .refl w ref m p⟩
  | model made =>
      subst made
      cases hc
  | @change i n e found makes allowed =>
      have hweak : e.Weak := makes.weak hc
      have hplace : ∀ reg slot, p.source = .explicit → w.slot? reg slot = some ref →
          (w.setModel i (n.apply e)).slot? reg slot = some ref := by
        intro reg slot hexplicit hslot
        obtain ⟨k, hk, hmodel, hheld⟩ := slot?_eq_some_iff.1 hslot
        rw [slot?_eq_some_iff, model?_setModel found]
        by_cases hi : i = reg.model
        · subst hi
          have hkn : k = n := Option.some.inj (hk.symm.trans found)
          have hkm : k = m := Option.some.inj (hk.symm.trans (hmodel ▸ hm))
          subst hkn hkm
          exact ⟨_, if_pos rfl, hmodel,
            Model.slot_apply_weak hweak allowed hheld hget hexplicit⟩
        · exact ⟨k, by rw [if_neg hi, hk], hmodel, hheld⟩
      by_cases hi : i = ref.model
      · subst hi
        have hnm : n = m := Option.some.inj (found.symm.trans hm)
        subst hnm
        obtain ⟨q, hq, hafter⟩ := Model.procedure_apply hget e
        obtain ⟨hsource, hremoved, hrecorded, hkept⟩ :=
          spares_record hget hweak allowed hafter
        refine ⟨n.apply e, q, ?_, hsource, ?_, hrecorded, ?_⟩
        · rw [procedure?_eq_some_iff, model?_setModel found]
          exact ⟨if_pos rfl, hq⟩
        · exact fun hexplicit => ⟨hremoved hexplicit, fun reg slot => hplace reg slot hexplicit⟩
        · rw [Model.settings_apply_weak hweak]
          exact hkept
      · refine ⟨m, p, ?_, Iff.rfl, ?_, fun _ => Iff.rfl, fun _ ha => Procedure.keeps_refl _ ha⟩
        · rw [procedure?_eq_some_iff, model?_setModel found, if_neg hi]
          exact ⟨hm, hget⟩
        · exact fun hexplicit => ⟨rfl, fun reg slot => hplace reg slot hexplicit⟩

/-- **A run of conventions spares** what is explicit. -/
theorem Run.spares {ok : List Step → Command → Prop} {steps : List Step} {m : Model}
    {p : Procedure} (h : Run ok w steps w') (hc : ∀ s ∈ steps, s.command.isConvention = true)
    (hp : w.procedure? ref = some (m, p)) :
    ∃ m' p', w'.procedure? ref = some (m', p') ∧ Spares w w' ref m p m' p' := by
  induction h with
  | nil => exact ⟨m, p, hp, .refl w ref m p⟩
  | @snoc steps v v' c a _ single _ does ih =>
      obtain ⟨m₁, p₁, hp₁, hspares⟩ := ih fun s hs => hc s (List.mem_append_left _ hs)
      have hlast : c.isConvention = true := hc ⟨c, a⟩ (by simp)
      obtain ⟨m₂, p₂, hp₂, hspares'⟩ := (execute_effect single does).spares hlast hp₁
      exact ⟨m₂, p₂, hp₂, hspares.trans hspares'⟩

/-- What a run of conventions makes has nothing explicit. -/
theorem Run.spares_new {ok : List Step → Command → Prop} {steps : List Step} {m' : Model}
    {p' : Procedure} (h : Run ok w steps w') (hc : ∀ s ∈ steps, s.command.isConvention = true)
    (hp : w.procedure? ref = none) (hp' : w'.procedure? ref = some (m', p')) :
    p'.source ≠ .explicit ∧ ∀ a, p'.recorded? a ≠ some .explicit := by
  induction h generalizing m' p' with
  | nil =>
      rw [hp] at hp'
      cases hp'
  | @snoc steps v v' c a _ single _ does ih =>
      have hlast : c.isConvention = true := hc ⟨c, a⟩ (by simp)
      have heffect := execute_effect single does
      rcases heffect.procedure_before hp' with
        ⟨m₁, p₁, hp₁, _⟩ | ⟨_, m₁, owner, op, s, rfl, _, _, hmade⟩
      · obtain ⟨hsource, hrecorded⟩ := ih (fun s hs => hc s (List.mem_append_left _ hs)) hp₁
        obtain ⟨m₂, p₂, hp₂, hspares⟩ := heffect.spares hlast hp₁
        have heq : (m₂, p₂) = (m', p') := Option.some.inj (hp₂.symm.trans hp')
        cases heq
        exact ⟨fun h => hsource (hspares.source.1 h),
          fun a ha => hrecorded a ((hspares.recorded a).1 ha)⟩
      · refine ⟨?_, ?_⟩
        · rcases hmade with ⟨r, hmakes⟩ | hmakes
          · exact hmakes.weak hlast
          · exact (hmakes.weak hlast).elim
        · intro a ha
          rw [Procedure.recorded?_fresh] at ha
          cases ha

/-! ## Sessions -/

variable {past steps more : List Step}

/-- What holds of a record in a session: only an explicit procedure has explicit attributes, and a
`set` hands out explicit procedures only. -/
structure Guarded (past : List Step) (ref : ProcedureRef) (p : Procedure) : Prop where
  linked : p.Linked
  granted : GaveExplicit past ref → p.source = .explicit

theorem gaveExplicit_append {a : Except Error Outcome} :
    GaveExplicit (steps ++ [⟨c, a⟩]) ref ↔ GaveExplicit steps ref ∨
      c.isSet = true ∧ a = .ok (.procedure (some ref)) := by
  simp [GaveExplicit, or_and_right, exists_or]

theorem answered_of_gaveExplicit (h : GaveExplicit steps ref) : ∃ reg, Answered steps reg ref := by
  obtain ⟨s, hs, hset, hanswer⟩ := h
  cases hc : s.command with
  | set reg owner op => exact ⟨reg, s, hs, ⟨owner, op, by rw [hc]; rfl⟩, hanswer⟩
  | _ =>
      rw [hc] at hset
      cases hset

/-- What a `set` hands out is explicit. -/
theorem source_of_set {m' : Model} {p' : Procedure} (hset : c.isSet = true)
    (h : w.execute c = some (w', .ok (.procedure (some ref))))
    (hp' : w'.procedure? ref = some (m', p')) : p'.source = .explicit := by
  cases c with
  | set reg owner op =>
      obtain ⟨m, i, n, hm, hreuse, rfl, hout⟩ := execute_set h
      cases hout
      rw [procedure?_eq_some_iff, model?_setModel hm, if_pos rfl] at hp'
      obtain ⟨hn, hget⟩ := hp'
      cases hn
      exact Source.explicit_le_iff.1 (Model.reuseOrCreate_source hreuse hget)
  | _ => cases hset

/-- A public change of a record is quiet, or a `set` has handed the record out. -/
theorem quiet_or_granted {change : Procedure.Change} (hpublic : c.isPublic = true)
    (hgiven : c.Given past) (hmakes : c.Makes ref.model (.procedure ref.id change)) :
    change.Quiet ∨ GaveExplicit past ref := by
  generalize hi : ref.model = i at hmakes
  generalize hj : ref.id = j at hmakes
  cases hmakes with
  | setAgain | setConventionAgain => exact .inl trivial
  | @configureWrite p _ _ _ =>
      obtain rfl : ref = p := by
        cases ref
        cases p
        simp_all
      exact .inr hgiven
  | @configureSignature p _ =>
      obtain rfl : ref = p := by
        cases ref
        cases p
        simp_all
      exact .inr hgiven
  | suggest | suggestSignature => exact .inl (Source.ofConvention_ne_explicit _)
  | write | bindSignature | restamp | detach => cases hpublic

theorem guarded_apply {m : Model} {p p' : Procedure} {e : Model.Change}
    (h : Guarded past ref p) (hpublic : c.isPublic = true) (hgiven : c.Given past)
    (hp : m.procedures[ref.id]? = some p) (hmakes : c.Makes ref.model e) (hallowed : m.Allows e)
    (hafter : p' = p ∨ ∃ change, m.Acts e ref.id change ∧ p' = p.apply change) :
    p'.Linked ∧ (p.source = .explicit → p'.source = .explicit) := by
  rcases hafter with rfl | ⟨change, hacts, rfl⟩
  · exact ⟨h.linked, id⟩
  refine ⟨?_, Procedure.source_apply_explicit⟩
  cases hacts with
  | procedure =>
      have hchange := (quiet_or_granted hpublic hgiven hmakes).imp_right h.granted
      exact Procedure.linked_apply h.linked (hallowed.procedure hp) hchange
  | vacate =>
      intro a ha
      exact h.linked a (by cases a <;> exact ha)

/-- **Only explicit procedures have explicit attributes** in a session. -/
theorem Session.guarded (h : Session steps w) {m : Model} {p : Procedure}
    (hp : w.procedure? ref = some (m, p)) : Guarded steps ref p := by
  induction h generalizing m p with
  | nil => cases hp
  | @snoc steps v v' c a before single allowed does ih =>
      have heffect := execute_effect single does
      -- What was granted before is a record that was there before.
      have hold : GaveExplicit steps ref → ∃ m₁ p₁, v.procedure? ref = some (m₁, p₁) := by
        intro hgave
        obtain ⟨reg, hanswered⟩ := answered_of_gaveExplicit hgave
        obtain ⟨hmodel, n, hn, q, hq, _⟩ := (Session.ledger before).kept reg ref hanswered
        exact ⟨n, q, procedure?_eq_some_iff.2 ⟨hmodel ▸ hn, hq⟩⟩
      have hlast : c.isSet = true → a = .ok (.procedure (some ref)) → p.source = .explicit := by
        intro hset hanswer
        rw [hanswer] at does
        exact source_of_set hset does hp
      rcases heffect.procedure_before hp with
        ⟨m₁, p₁, hp₁, hafter⟩ | ⟨hnone, _, owner, op, s, rfl, _⟩
      · have hguarded := ih hp₁
        have hkept : p.Linked ∧ (p₁.source = .explicit → p.source = .explicit) := by
          rcases hafter with ⟨_, rfl⟩ | ⟨e, hmakes, hallows, _, hrecord⟩
          · exact ⟨hguarded.linked, id⟩
          · exact guarded_apply hguarded allowed.1 allowed.2 (procedure?_eq_some_iff.1 hp₁).2
              hmakes hallows hrecord
        refine ⟨hkept.1, ?_⟩
        intro hgave
        rcases gaveExplicit_append.1 hgave with hbefore | ⟨hset, hanswer⟩
        · exact hkept.2 (hguarded.granted hbefore)
        · exact hlast hset hanswer
      · refine ⟨?_, ?_⟩
        · intro b hb
          rw [Procedure.recorded?_fresh] at hb
          cases hb
        · intro hgave
          rcases gaveExplicit_append.1 hgave with hbefore | ⟨hset, hanswer⟩
          · obtain ⟨m₁, p₁, hp₁⟩ := hold hbefore
            rw [hnone] at hp₁
            cases hp₁
          · exact hlast hset hanswer

/-- What a run of conventions leaves as it is: what every record has explicitly, and with it the
place of the record; and nothing new is explicit. -/
structure Untouched (w w' : Workspace) : Prop where
  spared : ∀ ref m p, w.procedure? ref = some (m, p) →
    ∃ m' p', w'.procedure? ref = some (m', p') ∧ Spares w w' ref m p m' p'
  guarded : ∀ ref m p a, w.procedure? ref = some (m, p) → p.recorded? a = some .explicit →
    p.source = .explicit
  made : ∀ ref m' p', w.procedure? ref = none → w'.procedure? ref = some (m', p') →
    p'.source ≠ .explicit ∧ ∀ a, p'.recorded? a ≠ some .explicit

/-- **Conventions cannot touch explicit configuration.** -/
theorem conventions_spare (h : Session past w) (hmore : Continues past w more w')
    (hc : ∀ s ∈ more, s.command.isConvention = true) : Untouched w w' where
  spared _ _ _ hp := Run.spares hmore hc hp
  guarded _ _ _ a hp ha := (Session.guarded h hp).linked a ha
  made _ _ _ hnone hp' := Run.spares_new hmore hc hnone hp'

/-- A session that configures a name explicitly. -/
def upserted : List Step × Workspace :=
  (carryOn (IsOpen []) [] .empty
    [.createModel .standard, .addType 0 "Blog" none, .createRegistry 0,
      .set ⟨0, 0⟩ ⟨0, 0, "Blog"⟩ .insert, .configure ⟨0, 0⟩ (.name "Upsert")]).get rfl

/-- Conventions that reuse the procedure, propose names for it and try to remove it. -/
def suggested : List Step × Workspace :=
  (carryOn (IsOpen upserted.1) [] upserted.2
    [.setConvention ⟨0, 0⟩ 0 ⟨0, 0, "Blog"⟩ .insert true,
      .suggest ⟨0, 0⟩ (.name (some "Upsert")) false,
      .suggest ⟨0, 0⟩ (.name (some "Blog_Add")) true,
      .removeConvention ⟨0, 0⟩ ⟨0, 0, "Blog"⟩ .insert true]).get rfl

/-- The conventions leave the procedure where it is, under its name. -/
theorem conventions_spare_upserted :
    Session upserted.1 upserted.2 ∧ Continues upserted.1 upserted.2 suggested.1 suggested.2 ∧
      (∀ s ∈ suggested.1, s.command.isConvention = true) ∧
      Untouched upserted.2 suggested.2 ∧
      suggested.2.slot? ⟨0, 0⟩ ⟨0, .insert⟩ = some ⟨0, 0⟩ := by
  have hsession : Session upserted.1 upserted.2 := Run.carryOn .nil (Option.some_get rfl).symm
  have hmore : Continues upserted.1 upserted.2 suggested.1 suggested.2 :=
    Run.carryOn .nil (Option.some_get rfl).symm
  have hconventions : ∀ s ∈ suggested.1, s.command.isConvention = true := by decide
  exact ⟨hsession, hmore, hconventions, conventions_spare hsession hmore hconventions, rfl⟩

end Workspace

end ProcedureMapping
