import ProcedureMapping.Proofs.Precedence

/-!
# Which name applies

A name that is blank and does not come from explicit code is **idle**: it is never accepted, and
it leaves no trace.  Of the calls that are heard, the decisive one is the name that applies.

A weaker call may still rewrite the record, when it repeats the name that applies, and turn an
unset name into a recorded default.  So what the calls preserve is not the recorded value but the
name that applies.

Main statements:

* `Named.heed` — what one call preserves;
* `Run.named` — what a run leaves of a name;
* `name_precedence` — the decisive name applies, however the weaker calls are interleaved.
-/

namespace ProcedureMapping

/-- Whether a call for a name is never accepted: a blank name that is not explicit. -/
def Call.isIdle (c : Call) : Bool := c.value.any Text.isBlank && c.source != .explicit

/-- The calls for the name of a procedure that count. -/
def heard (ref : ProcedureRef) (steps : List Step) : List Call :=
  (callsFor Procedure.Write.name? ref steps).filter fun c => !c.isIdle

/-- What calls leave of a name: the strongest source, and the decisive name or else the default
one. -/
structure Named (default : String) (calls : List Call) (name : Tracked (Option String)) : Prop where
  source : name.source = topSource calls
  value : name.value.getD default = ((decisive calls).bind Call.value).getD default
  unset : calls = [] → name = .unset none

section Named

variable {settings : ModelSettings} {p : Procedure} {calls : List Call} {c : Call}

theorem name_heed (settings : ModelSettings) (p : Procedure) (c : Call) :
    (p.heed settings (.name c.value) c.source).name =
      if p.acceptsName settings c.value c.source then p.name.set c.value c.source
      else p.name := by
  unfold Procedure.heed Procedure.accepts
  dsimp only
  split <;> rfl

theorem acceptsName_idle (h : c.isIdle = true) :
    p.acceptsName settings c.value c.source = false := by
  unfold Call.isIdle at h
  unfold Procedure.acceptsName
  rw [h]
  rfl

/-- A call that is not idle is accepted when it is strong enough, or repeats what is there. -/
theorem acceptsName_iff (h : c.isIdle = false) :
    p.acceptsName settings c.value c.source = true ↔
      c.source.overrides p.name.source = true ∨ p.name.value = c.value ∨
        c.value = some (p.effectiveName settings) := by
  unfold Call.isIdle at h
  unfold Procedure.acceptsName
  rw [h]
  simp only [Bool.not_false, Bool.true_and, Bool.or_eq_true, beq_iff_eq, or_assoc]

/-- **One call** keeps the strongest source and the name that applies. -/
theorem Named.heed (h : Named (p.defaultName settings) calls p.name) (hidle : c.isIdle = false) :
    Named (p.defaultName settings) (calls ++ [c])
      (p.heed settings (.name c.value) c.source).name := by
  rw [name_heed]
  have haccepts : p.acceptsName settings c.value c.source = true ↔
      c.source.overrides p.name.source = true ∨ p.name.value = c.value ∨
        c.value = some (p.effectiveName settings) := acceptsName_iff hidle
  by_cases hover : c.source.overrides (topSource calls) = true
  · have hyes : p.acceptsName settings c.value c.source = true :=
      haccepts.2 (.inl (h.source ▸ hover))
    rw [if_pos hyes]
    refine ⟨?_, ?_, by simp⟩
    · rw [topSource_append, ← h.source]
      rfl
    · rw [decisive_append, if_pos hover]
      rfl
  · -- A weaker call leaves the decision alone, and is recorded only where it agrees with it.
    have hweak : c.source.overrides p.name.source ≠ true := h.source ▸ hover
    have hsource : topSource (calls ++ [c]) = p.name.source := by
      rw [topSource_append, ← h.source, Source.some_max_of_not_overrides hweak]
    have hdecision : decisive (calls ++ [c]) = decisive calls := by
      rw [decisive_append, if_neg hover]
    by_cases hyes : p.acceptsName settings c.value c.source = true
    · rw [if_pos hyes]
      have hagrees : c.value.getD (p.defaultName settings) =
          p.name.value.getD (p.defaultName settings) := by
        rcases haccepts.1 hyes with hstrong | hsame | heffective
        · exact absurd hstrong hweak
        · rw [hsame]
        · rw [heffective]
          rfl
      refine ⟨?_, ?_, by simp⟩
      · rw [hsource]
        exact Source.some_max_of_not_overrides hweak
      · rw [hdecision, ← h.value]
        exact hagrees
    · rw [if_neg hyes]
      exact ⟨hsource.symm, by rw [hdecision, h.value], by simp⟩

end Named

namespace Workspace

variable {w w' : Workspace} {ref : ProcedureRef} {steps : List Step} {m m' : Model}
  {p p' : Procedure}

theorem heard_append (ref : ProcedureRef) (steps : List Step) (s : Step) :
    heard ref (steps ++ [s]) = heard ref steps ++ heard ref [s] := by
  unfold heard
  rw [callsFor_append, List.filter_append]

theorem heard_other {s : Step} (h : ∀ value source, s.request? ref ≠ some (.name value, source)) :
    heard ref [s] = [] := by
  unfold heard callsFor
  cases hreq : s.request? ref with
  | none => simp [hreq]
  | some request =>
      obtain ⟨write, source⟩ := request
      cases write with
      | name value => exact absurd hreq (h value source)
      | _ => simp [hreq, Procedure.Write.name?]

theorem heard_name {s : Step} {value : Option String} {source : Source}
    (h : s.request? ref = some (.name value, source)) :
    heard ref [s] = if (⟨value, source⟩ : Call).isIdle then [] else [⟨value, source⟩] := by
  unfold heard callsFor
  simp only [List.filterMap_cons, h, Option.bind_some, Procedure.Write.name?, Option.map_some,
    List.filterMap_nil]
  cases hidle : (⟨value, source⟩ : Call).isIdle <;> simp [hidle]

/-- **What a run leaves of a name** that was unset at its start. -/
theorem Run.named (h : FreeRun w steps w') (hp : w.procedure? ref = some (m, p))
    (hfresh : p.name = .unset none) : ∃ m' p', w'.procedure? ref = some (m', p') ∧
      Remains m p m' p' ∧ Named (p.defaultName m.settings) (heard ref steps) p'.name := by
  induction h with
  | nil =>
      refine ⟨m, p, hp, ⟨rfl, rfl, rfl⟩, ?_⟩
      rw [hfresh]
      exact ⟨rfl, rfl, fun _ => rfl⟩
  | @snoc steps v v' c a _ single _ does ih =>
      obtain ⟨m₁, p₁, hp₁, hremains, hnamed⟩ := ih
      obtain ⟨m₂, p₂, hp₂, hremains', hstep⟩ := step_record single does hp₁
      refine ⟨m₂, p₂, hp₂, hremains.trans hremains', ?_⟩
      rw [heard_append]
      cases hreq : Step.request? ref ⟨c, a⟩ with
      | none =>
          rw [hreq] at hstep
          rw [heard_other (by simp [hreq]), List.append_nil, hstep.1]
          exact hnamed
      | some request =>
          obtain ⟨write, s⟩ := request
          rw [hreq] at hstep
          obtain ⟨rfl, _⟩ := hstep
          cases write with
          | name value =>
              rw [heard_name hreq]
              cases hidle : (⟨value, s⟩ : Call).isIdle with
              | true =>
                  have hkept : (p₁.heed m₁.settings (.name value) s).name = p₁.name := by
                    rw [name_heed m₁.settings p₁ ⟨value, s⟩, acceptsName_idle hidle]
                    rfl
                  rw [if_pos rfl, List.append_nil, hkept]
                  exact hnamed
              | false =>
                  rw [← hremains.defaultName] at hnamed ⊢
                  exact hnamed.heed hidle
          | _ =>
              rw [heard_other (by simp [hreq]), List.append_nil, Procedure.name_heed_other rfl]
              exact hnamed

/-- **The decisive name applies.**  A run leaves the strongest source and the decisive name, or
the default one; runs that agree on the strongest source and on the calls at it agree on the name;
and while the procedure stays writable no call is refused but an explicit name that is too long. -/
theorem name_precedence (hp : w.procedure? ref = some (m, p)) (hfresh : p.name = .unset none) :
    (∀ steps w', FreeRun w steps w' → ∃ m' p', w'.procedure? ref = some (m', p') ∧
      p'.name.source = topSource (heard ref steps) ∧
      p'.effectiveName m'.settings =
        ((decisive (heard ref steps)).bind Call.value).getD (p.defaultName m.settings) ∧
      (heard ref steps = [] → p'.name = .unset none) ∧
      (p'.isWritable m'.settings = true → ∀ s ∈ steps, ∀ value source x,
        s.command.request? ref = some (.name value, source) → s.answer = .error x →
        OverLong m.settings.config value source x)) ∧
    ∀ steps₁ w₁ m₁ p₁ steps₂ w₂ m₂ p₂, FreeRun w steps₁ w₁ → FreeRun w steps₂ w₂ →
      w₁.procedure? ref = some (m₁, p₁) → w₂.procedure? ref = some (m₂, p₂) →
      topSource (heard ref steps₁) = topSource (heard ref steps₂) →
      deciding (heard ref steps₁) = deciding (heard ref steps₂) →
      p₁.name.source = p₂.name.source ∧
        p₁.effectiveName m₁.settings = p₂.effectiveName m₂.settings := by
  have houtcome : ∀ {steps w' m' p'}, FreeRun w steps w' → w'.procedure? ref = some (m', p') →
      Remains m p m' p' ∧ Named (p.defaultName m.settings) (heard ref steps) p'.name := by
    intro steps w' m' p' hrun hp'
    obtain ⟨m'', p'', hp'', hremains, hnamed⟩ := Run.named hrun hp hfresh
    have hsame : (m'', p'') = (m', p') := Option.some.inj (hp''.symm.trans hp')
    cases hsame
    exact ⟨hremains, hnamed⟩
  have happlies : ∀ {steps m' p'}, Remains m p m' p' →
      Named (p.defaultName m.settings) (heard ref steps) p'.name → p'.effectiveName m'.settings =
        ((decisive (heard ref steps)).bind Call.value).getD (p.defaultName m.settings) := by
    intro steps m' p' hremains hnamed
    unfold Procedure.effectiveName
    rw [hremains.defaultName, hnamed.value]
  refine ⟨?_, ?_⟩
  · intro steps w' hrun
    obtain ⟨m', p', hp', hremains, hnamed⟩ := Run.named hrun hp hfresh
    refine ⟨m', p', hp', hnamed.source, happlies hremains hnamed, hnamed.unset, ?_⟩
    intro hopen s hs value source x hreq hfail
    exact Run.overLong hrun hp hp' hopen hs hreq rfl hfail
  · intro steps₁ w₁ m₁ p₁ steps₂ w₂ m₂ p₂ hrun₁ hrun₂ hp₁ hp₂ htop hdeciding
    obtain ⟨hremains₁, hnamed₁⟩ := houtcome hrun₁ hp₁
    obtain ⟨hremains₂, hnamed₂⟩ := houtcome hrun₂ hp₂
    have hdecisive : decisive (heard ref steps₁) = decisive (heard ref steps₂) := by
      rw [decisive, decisive, hdeciding]
    refine ⟨?_, ?_⟩
    · rw [hnamed₁.source, hnamed₂.source, htop]
    · rw [happlies hremains₁ hnamed₁, happlies hremains₂ hnamed₂, hdecisive]

/-- A procedure of which nothing is configured. -/
def unnamed : Workspace :=
  ((carryOn (IsOpen []) [] .empty
    [.createModel .standard, .addType 0 "Blog" none, .createRegistry 0,
      .set ⟨0, 0⟩ ⟨0, 0, "Blog"⟩ .insert]).get rfl).2

/-- A convention that repeats the explicit default name and one that does not. -/
def renamed : List Step × Workspace :=
  (carryOn (fun _ _ => True) [] unnamed
    [.write ⟨0, 0⟩ (.name none) .explicit,
      .suggest ⟨0, 0⟩ (.name (some "Blog_Insert")) false,
      .suggest ⟨0, 0⟩ (.name (some "Upsert")) true]).get rfl

/-- The explicit default name applies, although a convention has rewritten the record. -/
theorem name_precedence_renamed :
    FreeRun unnamed renamed.1 renamed.2 ∧ ∃ m p, renamed.2.procedure? ⟨0, 0⟩ = some (m, p) ∧
      p.name.source = some .explicit ∧ p.effectiveName m.settings = "Blog_Insert" ∧
      p.name.value = some "Blog_Insert" := by
  have hrun : FreeRun unnamed renamed.1 renamed.2 := Run.carryOn .nil (Option.some_get rfl).symm
  have hp : unnamed.procedure? ⟨0, 0⟩ = some (_, _) := rfl
  obtain ⟨m, p, hp', hsource, hname, _⟩ := (name_precedence hp rfl).1 _ _ hrun
  refine ⟨hrun, m, p, hp', hsource.trans (by decide), hname.trans (by decide), ?_⟩
  have hrecord : renamed.2.procedure? ⟨0, 0⟩ = some (_, _) := rfl
  cases hrecord.symm.trans hp'
  rfl

end Workspace

end ProcedureMapping
