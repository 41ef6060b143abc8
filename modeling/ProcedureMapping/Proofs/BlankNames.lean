import ProcedureMapping.Proofs.Independence
import ProcedureMapping.Proofs.Provenance

/-!
# Blank names

Only explicit code can give a procedure a blank name.  The default name is never blank, since it
ends with the name of the operation; so where a blank name applies, it is recorded.  A blank name
from a convention or an attribute is never accepted, be it the one that is recorded already; so a
weaker call cannot have followed the explicit one either.

Main statements:

* `isBlank_defaultName` — the default name is never blank;
* `Leave.of_blank` — which calls leave a blank name;
* `execute_blank` — what becomes of a blank name that is not explicit;
* `blank_names_explicit` — blank names come from explicit code.
-/

namespace ProcedureMapping

theorem Operation.isBlank_name (op : Operation) : Text.isBlank op.name = false := by
  cases op <;> decide

namespace Procedure

/-- **The default name is never blank**, whatever the name of the owner and the separator. -/
theorem isBlank_defaultName (settings : ModelSettings) (p : Procedure) :
    Text.isBlank (p.defaultName settings) = false := by
  rw [defaultName, Text.isBlank_append, p.operation.isBlank_name, Bool.and_false]

/-- A blank name applies where one is recorded, and nowhere else. -/
theorem isBlank_effectiveName (settings : ModelSettings) (p : Procedure) :
    Text.isBlank (p.effectiveName settings) = p.name.value.any Text.isBlank := by
  rw [effectiveName]
  cases p.name.value with
  | none => exact p.isBlank_defaultName settings
  | some text => rfl

/-- A blank name that applies is the recorded one. -/
theorem some_effectiveName_of_blank {settings : ModelSettings} {p : Procedure}
    (h : Text.isBlank (p.effectiveName settings) = true) :
    some (p.effectiveName settings) = p.name.value := by
  rw [isBlank_effectiveName] at h
  rw [effectiveName]
  cases hvalue : p.name.value with
  | none =>
      rw [hvalue] at h
      cases h
  | some text => rfl

end Procedure

/-! ## Calls -/

section Calls

variable {calls before after : List Call} {b c : Call} {defaulted : Option String → Prop}
  {t : Tracked (Option String)}

/-- A blank name that is not idle is explicit. -/
theorem Call.explicit_of_blank (hidle : b.isIdle = false)
    (hblank : b.value.any Text.isBlank = true) : b.source = .explicit := by
  rw [isIdle, hblank, Bool.true_and, bne_eq_false_iff_eq] at hidle
  exact hidle

/-- Where a blank name is recorded, the call that has decided it has brought it, and no accepted
call has come after that one. -/
theorem Stamped.of_blank (h : Stamped before c after defaulted t)
    (hidle : ∀ b ∈ before ++ c :: after, b.isIdle = false)
    (hdefault : ∀ value, defaulted value → value.any Text.isBlank = false)
    (hblank : t.value.any Text.isBlank = true) : c = ⟨t.value, .explicit⟩ ∧ after = [] := by
  rcases h.value with ⟨hsame, hall⟩ | ⟨_, _, hfell⟩
  · have hc : c.source = .explicit :=
      Call.explicit_of_blank (hidle c (by simp)) (hsame ▸ hblank)
    refine ⟨by rw [hsame, ← hc], List.eq_nil_iff_forall_not_mem.2 ?_⟩
    intro b hb
    -- A later call repeats the blank name, so it is explicit and yet weaker than the explicit one.
    have hexplicit : b.source = .explicit :=
      Call.explicit_of_blank (hidle b (by simp [hb])) (by rw [hall b hb, ← hsame, hblank])
    have hweaker := h.below b hb
    rw [hexplicit, hc] at hweaker
    exact Nat.lt_irrefl _ hweaker
  · rw [hdefault _ hfell] at hblank
    cases hblank

/-- **What a blank name tells**: it is recorded as explicit, and the last call has brought it. -/
theorem Leave.of_blank (h : Leave calls defaulted t) (hidle : ∀ b ∈ calls, b.isIdle = false)
    (hdefault : ∀ value, defaulted value → value.any Text.isBlank = false)
    (hblank : t.value.any Text.isBlank = true) :
    t.source = some .explicit ∧ calls.getLast? = some ⟨t.value, .explicit⟩ := by
  rcases h with ⟨_, rfl⟩ | ⟨before, c, after, rfl, hstamped⟩
  · cases hblank
  · obtain ⟨hc, rfl⟩ := hstamped.of_blank hidle hdefault hblank
    refine ⟨?_, ?_⟩
    · rw [hstamped.source, hc]
    · rw [List.getLast?_concat, ← hc]

/-- The value of the last call is recorded. -/
theorem Leave.value_of_getLast? (h : Leave calls defaulted t) (hlast : calls.getLast? = some b) :
    t.value = b.value := by
  rcases h with ⟨rfl, _⟩ | ⟨before, c, after, rfl, hstamped⟩
  · cases hlast
  · rw [List.getLast?_append_of_ne_nil _ (List.cons_ne_nil c after)] at hlast
    have hvalue := hstamped.last
    rw [hlast, Option.map_some, Option.some.injEq] at hvalue
    exact hvalue.symm

end Calls

namespace Workspace

variable {w : Workspace} {c : Command} {ref : ProcedureRef} {m : Model} {p : Procedure}
  {steps : List Step} {text : String} {s : Source}

/-- No accepted call for a name is idle. -/
theorem Run.isIdle_accepted (h : FreeRun .empty steps w) (hp : w.procedure? ref = some (m, p)) :
    ∀ b ∈ accepted .name ref steps, b.isIdle = false := by
  intro b hb
  obtain ⟨_, _, _, _, _, m₁, p₁, write, _, _, _, _, _, hwrite, _, haccepts⟩ :=
    h.exists_accepted hb hp
  rw [Bool.eq_false_iff]
  intro hidle
  cases write with
  | name value =>
      cases hwrite
      exact absurd haccepts (by simp [Procedure.accepts, acceptsName_idle hidle])
  | _ => cases hwrite

/-- **What becomes of a blank name that is not explicit**: whatever is recorded, it is not accepted,
and the command that asks for it changes nothing. -/
theorem execute_blank (hblank : Text.isBlank text = true) (hs : s ≠ .explicit)
    (hreq : c.request? ref = some (.name (some text), s)) (hp : w.procedure? ref = some (m, p)) :
    p.accepts m.settings (.name (some text)) s = false ∧
    ∃ a, w.execute c = some (w, a) ∧ a ≠ .ok (.applied true) ∧
      (p.isWritable m.settings = true → a = .ok (.applied false)) := by
  have hidle : (⟨some text, s⟩ : Call).isIdle = true := by
    simp [Call.isIdle, hblank, hs]
  have hno : p.accepts m.settings (.name (some text)) s = false := acceptsName_idle hidle
  have hnot : p.answer m.settings (.name (some text)) s ≠ .ok (.applied true) := by
    rw [ne_eq, Procedure.answer_eq_applied_iff, Procedure.can, hno, Bool.and_false]
    exact Bool.false_ne_true
  have hdoes := execute_write hp (.name (some text)) s
  rw [(negotiated_write hp _ s).unchanged hnot] at hdoes
  refine ⟨hno, _, ?_, hnot, ?_⟩
  · rcases Command.request?_eq_some hreq with ⟨_, _, _, rfl⟩ | ⟨da, rfl, rfl⟩ | rfl
    · exact absurd rfl hs
    · exact hdoes
    · exact hdoes
  · intro hopen
    rw [Procedure.answer_of_isWritable hopen rfl, hno]

/-- **Blank names come from explicit code only**, at any moment of any run.  A blank name applies
if and only if the last accepted call for the name is an explicit one with a blank name; the record
then holds that name at the explicit source.  A blank name from a convention or an attribute is
never accepted, whatever the record holds. -/
theorem blank_names_explicit (h : FreeRun .empty steps w)
    (hp : w.procedure? ref = some (m, p)) :
    (Text.isBlank (p.effectiveName m.settings) = true ↔ ∃ text, Text.isBlank text = true ∧
      (accepted .name ref steps).getLast? = some ⟨some text, .explicit⟩) ∧
    (Text.isBlank (p.effectiveName m.settings) = true →
      p.name = ⟨some (p.effectiveName m.settings), some .explicit⟩ ∧
      (⟨some (p.effectiveName m.settings), .explicit⟩ : Call) ∈ accepted .name ref steps) ∧
    (∀ b ∈ accepted .name ref steps, b.value.any Text.isBlank = true → b.source = .explicit) ∧
    (∀ c text s, Text.isBlank text = true → s ≠ .explicit →
      c.request? ref = some (.name (some text), s) →
      p.accepts m.settings (.name (some text)) s = false ∧
      ∃ a, w.execute c = some (w, a) ∧ a ≠ .ok (.applied true) ∧
        (p.isWritable m.settings = true → a = .ok (.applied false))) ∧
    ∀ settings (q : Procedure), Text.isBlank (q.defaultName settings) = false := by
  have hidle := Run.isIdle_accepted h hp
  have hdefault : ∀ value, Defaulted .name ref steps value → value.any Text.isBlank = false := by
    rintro value ⟨_, _, _, _, m₁, p₁, _, _, _, _, _, _, hfallback⟩
    rw [← hfallback]
    exact p₁.isBlank_defaultName m₁.settings
  have hleave : Leave (accepted .name ref steps) (Defaulted .name ref steps) p.name :=
    Run.leaves .name h hp
  have hrecorded : Text.isBlank (p.effectiveName m.settings) = true →
      p.name = ⟨some (p.effectiveName m.settings), some .explicit⟩ ∧
      (accepted .name ref steps).getLast? =
        some ⟨some (p.effectiveName m.settings), .explicit⟩ := by
    intro hblank
    have hvalue : some (p.effectiveName m.settings) = p.name.value :=
      Procedure.some_effectiveName_of_blank hblank
    rw [p.isBlank_effectiveName m.settings] at hblank
    obtain ⟨hsource, hlast⟩ := hleave.of_blank hidle hdefault hblank
    rw [hvalue]
    exact ⟨by rw [← hsource], hlast⟩
  refine ⟨⟨?_, ?_⟩, ?_, fun b hb => Call.explicit_of_blank (hidle b hb), ?_,
    fun settings q => q.isBlank_defaultName settings⟩
  · intro hblank
    exact ⟨_, hblank, (hrecorded hblank).2⟩
  · rintro ⟨text, hblank, hlast⟩
    rw [p.isBlank_effectiveName m.settings, hleave.value_of_getLast? hlast]
    exact hblank
  · intro hblank
    obtain ⟨hname, hlast⟩ := hrecorded hblank
    exact ⟨hname, List.mem_of_getLast? hlast⟩
  · intro c text s hblank hs hreq
    exact execute_blank hblank hs hreq hp

/-- A procedure with a blank name from explicit code, and a convention that repeats it. -/
def blanked : List Step × Workspace :=
  (carryOn (IsOpen []) [] .empty
    [.createModel .standard, .addType 0 "Blog" none, .createRegistry 0,
      .set ⟨0, 0⟩ ⟨0, 0, "Blog"⟩ .insert,
      .setConvention ⟨0, 0⟩ 0 ⟨0, 0, "Blog"⟩ .insert false,
      .configure ⟨0, 0⟩ (.name " \u3000"), .suggest ⟨0, 0⟩ (.name (some " \u3000")) false]).get rfl

theorem blank_names_explicit_blanked : Session blanked.1 blanked.2 ∧
    ∃ m p, blanked.2.procedure? ⟨0, 0⟩ = some (m, p) ∧
      p.effectiveName m.settings = " \u3000" ∧ p.name.source = some .explicit ∧
      (⟨some " \u3000", .explicit⟩ : Call) ∈ accepted .name ⟨0, 0⟩ blanked.1 ∧
      p.accepts m.settings (.name (some " \u3000")) .annotated = false := by
  have hsession : Session blanked.1 blanked.2 := Run.carryOn .nil (Option.some_get rfl).symm
  have hrun : FreeRun .empty blanked.1 blanked.2 := hsession.mono fun _ _ _ => trivial
  have hp : blanked.2.procedure? ⟨0, 0⟩ = some (_, _) := rfl
  have hblank : Text.isBlank " \u3000" = true := by decide
  obtain ⟨_, hrecorded, _, hrefused, _⟩ := blank_names_explicit hrun hp
  obtain ⟨hname, hbrought⟩ := hrecorded hblank
  have hno := (hrefused (.write ⟨0, 0⟩ (.name (some " \u3000")) .annotated) _ _ hblank
    (by decide) rfl).1
  exact ⟨hsession, _, _, hp, rfl, congrArg Tracked.source hname, hbrought, hno⟩

end Workspace

end ProcedureMapping
