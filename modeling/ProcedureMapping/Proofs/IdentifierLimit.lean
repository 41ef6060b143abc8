import ProcedureMapping.Proofs.Conventions
import ProcedureMapping.Proofs.Provenance

/-!
# The limit on identifiers

A model limits the length of the names and the schemas that explicit code gives to its procedures.
Conventions are not held to the limit, and neither are the default name and the default schema.

So what explicit code has brought keeps to the limit.  But the explicit source alone does not tell
that explicit code has brought a value: where the deciding call has asked for no value, a weaker
call that names the default is recorded under the source of the deciding one, however long the
default is.

Main statements:

* `Session.permits_of_accepted` — what explicit code brings keeps to the limit;
* `Run.value_of_defaulted` — the default that is named for a name is the default name;
* `explicit_identifiers` — what is recorded as explicit;
* `overlong_stamped` — identifiers that are recorded as explicit and are too long.
-/

namespace ProcedureMapping

/-- Whether a text is as short as a model demands of explicit identifiers. -/
def ModelSettings.Permits (settings : ModelSettings) (text : String) : Prop :=
  text.length ≤ settings.config.maxIdentifierLength.toNat

theorem Part.identifier?_of_write? {part : Part} {write : Procedure.Write} {value : Option String}
    (h : part.write? write = some value) : write.identifier? = some value := by
  cases part <;> cases write <;> cases h <;> rfl

namespace Procedure

variable {settings : ModelSettings} {p q : Procedure} {text : String}

theorem permits_of_ensureIdentifier (h : p.ensureIdentifier settings text = .ok ()) :
    settings.Permits text := by
  obtain ⟨_, _, hvalid⟩ := bind_eq_ok_iff.1 h
  unfold Config.validateIdentifier at hvalid
  split at hvalid
  · cases hvalid
  · next hshort => exact Nat.le_of_not_lt hshort

/-- A statement that is carried out brings no identifier that is too long. -/
theorem permits_of_configure {statement : Statement} {write : Write}
    (hasks : statement.write? = some write) (hvalue : write.identifier? = some (some text))
    (h : p.configure settings statement = .ok q) : settings.Permits text := by
  cases statement with
  | name | schema =>
      cases hasks
      cases hvalue
      obtain ⟨_, hchecked, _⟩ := bind_eq_ok_iff.1 h
      exact permits_of_ensureIdentifier hchecked
  | defaultName | annotate | unannotate | parameter =>
      cases hasks
      cases hvalue
  | signature | select => cases hasks

end Procedure

namespace Workspace

variable {w : Workspace} {ref : ProcedureRef} {m : Model} {p : Procedure} {steps : List Step}
  {part : Part} {text : String}

/-- **What explicit code brings keeps to the limit.** -/
theorem Session.permits_of_accepted (h : Session steps w)
    (hb : (⟨some text, .explicit⟩ : Call) ∈ accepted part ref steps)
    (hp : w.procedure? ref = some (m, p)) : m.settings.Permits text := by
  obtain ⟨past, v, v', c, o, m₁, p₁, write, ⟨hpublic, _⟩, hdoes, hv, hremains, hreq, hwrite, _⟩ :=
    h.exists_accepted hb hp
  rcases Command.request?_eq_some hreq with ⟨statement, rfl, hasks, _⟩ | ⟨da, _, hs⟩ | rfl
  · simp only [execute] at hdoes
    obtain ⟨n, q, q', hq, hchange, _⟩ := changeProcedure_ok hdoes
    obtain ⟨rfl, rfl⟩ : n = m₁ ∧ q = p₁ := by simpa using hq.symm.trans hv
    obtain ⟨_, hconfigured, _⟩ := map_eq_ok_iff.1 hchange
    have hpermits : n.settings.Permits text :=
      Procedure.permits_of_configure hasks (Part.identifier?_of_write? hwrite) hconfigured
    rw [ModelSettings.Permits, hremains.config]
    exact hpermits
  · exact absurd hs.symm (Source.ofConvention_ne_explicit da)
  · cases hpublic

/-- The default that a call has named for a name is the default name of the procedure. -/
theorem Run.value_of_defaulted {value : Option String} (h : FreeRun .empty steps w)
    (hp : w.procedure? ref = some (m, p)) (hdefault : Defaulted .name ref steps value) :
    value = some (p.defaultName m.settings) := by
  obtain ⟨past, step, later, v, m₁, p₁, _, rfl, hpast, hv, _, _, rfl⟩ := hdefault
  obtain ⟨u, hpast', hlater⟩ := h.split
  obtain rfl : v = u := hpast.unique hpast'
  obtain ⟨m₂, p₂, hp₂, hremains⟩ := hlater.remains hv
  obtain ⟨rfl, rfl⟩ : m₂ = m ∧ p₂ = p := by simpa using hp₂.symm.trans hp
  exact congrArg some hremains.defaultName.symm

/-- **What is recorded as explicit**, at any moment of any session.  Explicit code has brought the
identifier, and then it keeps to the limit; or explicit code has asked for none, and after that a
weaker call has named the default that applied, which for a name is the default name. -/
theorem explicit_identifiers (h : Session steps w) (hp : w.procedure? ref = some (m, p))
    (hrecord : part.of p = ⟨some text, some .explicit⟩) :
    ((⟨some text, .explicit⟩ : Call) ∈ accepted part ref steps → m.settings.Permits text) ∧
    ∃ before c after, accepted part ref steps = before ++ c :: after ∧ c.source = .explicit ∧
      (∀ b ∈ after, b.source < .explicit) ∧
      (c.value = some text ∧ m.settings.Permits text ∨
        c.value = none ∧ (∃ b ∈ after, b.value = some text) ∧
          Defaulted part ref steps (some text) ∧
          (part = .name → text = p.defaultName m.settings)) := by
  have hrun : FreeRun .empty steps w := h.mono fun _ _ _ => trivial
  have hpermits : (⟨some text, .explicit⟩ : Call) ∈ accepted part ref steps →
      m.settings.Permits text := fun hb => Session.permits_of_accepted h hb hp
  refine ⟨hpermits, ?_⟩
  rcases Run.leaves part hrun hp with ⟨_, hunset⟩ | ⟨before, c, after, hcalls, hstamped⟩
  · rw [hunset] at hrecord
    cases hrecord
  · rw [hrecord] at hstamped
    have hc : c.source = .explicit := (Option.some.inj hstamped.source).symm
    refine ⟨before, c, after, hcalls, hc, hc ▸ hstamped.below, ?_⟩
    rcases hstamped.value with ⟨hsame, _⟩ | ⟨hnone, _, hdefault⟩
    · left
      have hthis : c = ⟨some text, .explicit⟩ := by
        cases c
        cases hc
        cases hsame
        rfl
      refine ⟨hsame.symm, hpermits ?_⟩
      rw [hcalls, ← hthis]
      simp
    · right
      refine ⟨hnone, ?_, hdefault, ?_⟩
      · -- The last of the calls has brought what is recorded, and it is not the deciding one.
        obtain ⟨b, hlast, hvalue⟩ := Option.map_eq_some_iff.1 hstamped.last
        rcases List.mem_cons.1 (List.mem_of_getLast? hlast) with rfl | hafter
        · rw [hnone] at hvalue
          cases hvalue
        · exact ⟨b, hafter, hvalue⟩
      · rintro rfl
        exact Option.some.inj (Run.value_of_defaulted hrun hp hdefault)

/-- A model with a limit of eight characters, and a procedure that explicit code has asked the
defaults for, before conventions have named them. -/
def overlong : List Step × Workspace :=
  (carryOn (IsOpen []) [] .empty
    [.createModel ⟨none, "_", 8⟩, .addType 0 "Blog" none, .createRegistry 0,
      .setDefaultSchema 0 (some "warehouse") .convention, .set ⟨0, 0⟩ ⟨0, 0, "Blog"⟩ .insert,
      .setConvention ⟨0, 0⟩ 0 ⟨0, 0, "Blog"⟩ .insert false, .configure ⟨0, 0⟩ (.schema none),
      .suggest ⟨0, 0⟩ (.schema (some "warehouse")) false, .configure ⟨0, 0⟩ .defaultName,
      .suggest ⟨0, 0⟩ (.name (some "Blog_Insert")) false]).get rfl

/-- Both are recorded as explicit. -/
theorem overlong_records : Session overlong.1 overlong.2 ∧
    ∃ m p, overlong.2.procedure? ⟨0, 0⟩ = some (m, p) ∧
      m.settings.config.maxIdentifierLength = 8 ∧
      p.schema = ⟨some "warehouse", some .explicit⟩ ∧
      p.name = ⟨some "Blog_Insert", some .explicit⟩ :=
  ⟨Run.carryOn .nil (Option.some_get rfl).symm, _, _, rfl, rfl, rfl, rfl⟩

/-- Explicit code has not brought the name, so it is the default one. -/
theorem explicit_identifiers_overlong : Session overlong.1 overlong.2 ∧
    ∃ m p, overlong.2.procedure? ⟨0, 0⟩ = some (m, p) ∧
      p.name = ⟨some "Blog_Insert", some .explicit⟩ ∧
      ∃ before c after, accepted .name ⟨0, 0⟩ overlong.1 = before ++ c :: after ∧
        c.source = .explicit ∧ c.value = none ∧ "Blog_Insert" = p.defaultName m.settings := by
  obtain ⟨hsession, m, p, hp, hlimit, _, hname⟩ := overlong_records
  have hrecord : Part.name.of p = ⟨some "Blog_Insert", some .explicit⟩ := hname
  obtain ⟨_, before, c, after, hcalls, hc, _, hvalue⟩ :=
    explicit_identifiers hsession hp hrecord
  refine ⟨hsession, m, p, hp, hname, before, c, after, hcalls, hc, ?_⟩
  rcases hvalue with ⟨_, hpermits⟩ | ⟨hnone, _, _, hdefault⟩
  · rw [ModelSettings.Permits, hlimit] at hpermits
    exact absurd hpermits (by decide)
  · exact ⟨hnone, hdefault rfl⟩

/-- **Explicit identifiers that are too long**: a schema and a name that no explicit statement could
have brought under this limit. -/
theorem overlong_stamped : Session overlong.1 overlong.2 ∧
    ∃ m p, overlong.2.procedure? ⟨0, 0⟩ = some (m, p) ∧
      m.settings.config.maxIdentifierLength = 8 ∧
      p.schema = ⟨some "warehouse", some .explicit⟩ ∧ ¬ m.settings.Permits "warehouse" ∧
      p.name = ⟨some "Blog_Insert", some .explicit⟩ ∧ ¬ m.settings.Permits "Blog_Insert" := by
  obtain ⟨hsession, m, p, hp, hlimit, hschema, hname⟩ := overlong_records
  refine ⟨hsession, m, p, hp, hlimit, hschema, ?_, hname, ?_⟩
  · rw [ModelSettings.Permits, hlimit]
    decide
  · rw [ModelSettings.Permits, hlimit]
    decide

end Workspace

end ProcedureMapping
