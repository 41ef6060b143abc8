import ProcedureMapping.Proofs.Change

/-!
# Effects of commands

What a command does to a workspace is small: it makes a model, or it makes one change to one
model, or it leaves everything as it is.  So an invariant is proved once for every change and
then holds of every command.

Main statements:

* `execute_effect` — what a command does;
* `Effect.model_after`, `Effect.model_before` — the effect seen from one model.
-/

namespace ProcedureMapping

/-- Whether a command is carried out in one go; only `setUsing` is not. -/
def Command.isSingle : Command → Bool
  | setUsing .. => false
  | _ => true

/-- Which changes a command is able to make, and to which model. -/
inductive Command.Makes : Command → ModelId → Model.Change → Prop
  | addType {i name base b} : Makes (.addType i name base) i (.type name b)
  | annotate {i t name value s j entry annotations} :
      Makes (.annotate i t name value s) i (.annotations j entry annotations)
  | unannotate {i t name s j entry annotations} :
      Makes (.unannotate i t name s) i (.annotations j entry annotations)
  | setDefaultSchema {i schema s} : Makes (.setDefaultSchema i schema s) i (.defaultSchema schema s)
  | finalize {i} : Makes (.finalize i) i .finalize
  | createRegistry {i} : Makes (.createRegistry i) i .registry
  | setNew {ref owner op} :
      Makes (.set ref owner op) ref.model (.create ref.id owner op .explicit)
  | setAgain {ref owner op j} :
      Makes (.set ref owner op) ref.model (.procedure j (.raise .explicit))
  | setConventionNew {ref h owner op da} :
      Makes (.setConvention ref h owner op da) ref.model
        (.create ref.id owner op (.ofConvention da))
  | setConventionAgain {ref h owner op da j} :
      Makes (.setConvention ref h owner op da) ref.model
        (.procedure j (.raise (.ofConvention da)))
  | remove {ref owner op} :
      Makes (.remove ref owner op) ref.model (.vacate ref.id owner op .explicit)
  | removeConvention {ref owner op da} :
      Makes (.removeConvention ref owner op da) ref.model
        (.vacate ref.id owner op (.ofConvention da))
  | configureWrite {p statement w} (asks : statement.write? = some w) :
      Makes (.configure p statement) p.model (.procedure p.id (.write w .explicit))
  | configureSignature {p signature} :
      Makes (.configure p (.signature signature)) p.model
        (.procedure p.id (.bind signature .explicit))
  | suggest {p w da} :
      Makes (.suggest p w da) p.model (.procedure p.id (.write w (.ofConvention da)))
  | suggestSignature {p signature da} :
      Makes (.suggestSignature p signature da) p.model
        (.procedure p.id (.bind signature (.ofConvention da)))
  | write {p w s} : Makes (.write p w s) p.model (.procedure p.id (.write w s))
  | bindSignature {p signature s} :
      Makes (.bindSignature p signature s) p.model (.procedure p.id (.bind signature s))
  | restamp {p s} : Makes (.restamp p s) p.model (.procedure p.id (.raise s))
  | detach {p} : Makes (.detach p) p.model (.procedure p.id .detach)
  | createProcedure {owner op s} :
      Makes (.createProcedure owner op s) owner.model (.stray owner op s)

namespace Workspace

variable {w w' : Workspace}

theorem changeModel_eq_some {i : ModelId} {change : Model → Except Error (Outcome × Model)}
    {r : Result} (h : w.changeModel i change = some r) :
    ∃ m, w.model? i = some m ∧
      ((∃ o m', change m = .ok (o, m') ∧ r = (w.setModel i m', .ok o)) ∨
        ∃ e, change m = .error e ∧ r = (w, .error e)) := by
  unfold changeModel at h
  split at h
  · cases h
  · next m hm =>
      refine ⟨m, hm, ?_⟩
      split at h
      · next o m' hchange => exact .inl ⟨o, m', hchange, (Option.some.inj h).symm⟩
      · next e hchange => exact .inr ⟨e, hchange, (Option.some.inj h).symm⟩

theorem changeRegistry_eq_some {ref : RegistryRef}
    {change : Model → Except Error (Option ProcedureId × Model)} {r : Result}
    (h : w.changeRegistry ref change = some r) :
    ∃ m, w.model? ref.model = some m ∧
      ((∃ found m', change m = .ok (found, m') ∧
          r = (w.setModel ref.model m', .ok (.procedure (found.map fun i => ⟨ref.model, i⟩)))) ∨
        ∃ e, change m = .error e ∧ r = (w, .error e)) := by
  obtain ⟨m, hm, ⟨o, m', hchange, hr⟩ | ⟨e, hchange, hr⟩⟩ := changeModel_eq_some h
  · obtain ⟨⟨found, n⟩, hfound, heq⟩ := bind_eq_ok_iff.1 hchange
    cases heq
    exact ⟨m, hm, .inl ⟨found, m', hfound, hr⟩⟩
  · refine ⟨m, hm, .inr ⟨e, ?_, hr⟩⟩
    rcases bind_eq_error_iff.1 hchange with hfound | ⟨_, _, heq⟩
    · exact hfound
    · cases heq

theorem changeProcedure_eq_some {ref : ProcedureRef}
    {change : ModelSettings → Procedure → Except Error (Outcome × Procedure)} {r : Result}
    (h : w.changeProcedure ref change = some r) :
    ∃ m p, w.procedure? ref = some (m, p) ∧
      ((∃ o q, change m.settings p = .ok (o, q) ∧
          r = (w.setModel ref.model (m.setProcedure ref.id q), .ok o)) ∨
        ∃ e, change m.settings p = .error e ∧ r = (w, .error e)) := by
  unfold changeProcedure at h
  split at h
  · cases h
  · next m p hp =>
      refine ⟨m, p, hp, ?_⟩
      split at h
      · next o q hchange => exact .inl ⟨o, q, hchange, (Option.some.inj h).symm⟩
      · next e hchange => exact .inr ⟨e, hchange, (Option.some.inj h).symm⟩

theorem procedure?_eq_some_iff {ref : ProcedureRef} {m : Model} {p : Procedure} :
    w.procedure? ref = some (m, p) ↔
      w.model? ref.model = some m ∧ m.procedures[ref.id]? = some p := by
  unfold procedure?
  cases hm : w.model? ref.model with
  | none => simp
  | some n =>
      constructor
      · intro h
        obtain ⟨q, hq, heq⟩ := Option.map_eq_some_iff.1 h
        cases heq
        exact ⟨rfl, hq⟩
      · rintro ⟨heq, hp⟩
        cases heq
        simp [hp]

@[simp] theorem setModel_self {i : ModelId} {m : Model} (h : w.model? i = some m) :
    w.setModel i m = w := by
  have hlist : w.models.set i m = w.models := by
    apply List.ext_getElem?
    intro j
    obtain ⟨hi, rfl⟩ := List.getElem?_eq_some_iff.1 h
    by_cases hij : i = j
    · subst hij
      simp [hi]
    · exact List.getElem?_set_ne hij
  rw [setModel, hlist]

theorem model?_setModel {i j : ModelId} {m n : Model} (h : w.model? i = some m) :
    (w.setModel i n).model? j = if i = j then some n else w.model? j := by
  have hi : i < w.models.length := (List.getElem?_eq_some_iff.1 h).1
  by_cases hij : i = j
  · subst hij
    simp [model?, setModel, hi]
  · simp [model?, setModel, hij]

/-- A record that was replaced is found. -/
theorem procedure?_setProcedure {ref : ProcedureRef} {m : Model} {p : Procedure}
    (hp : w.procedure? ref = some (m, p)) (q : Procedure) :
    (w.setModel ref.model (m.setProcedure ref.id q)).procedure? ref =
      some (m.setProcedure ref.id q, q) := by
  obtain ⟨hm, hget⟩ := procedure?_eq_some_iff.1 hp
  have hi : ref.id < m.procedures.length := (List.getElem?_eq_some_iff.1 hget).1
  rw [procedure?_eq_some_iff, model?_setModel hm, if_pos rfl]
  exact ⟨rfl, by simp [Model.setProcedure, hi]⟩

/-- What a command leaves of a workspace: the same, a model more, or one changed model. -/
inductive Effect (w : Workspace) (c : Command) : Workspace → Prop
  | same : Effect w c w
  | model {config : Config} (made : c = .createModel config) :
      Effect w c ⟨w.models ++ [.new w.models.length config]⟩
  | change {i : ModelId} {m : Model} {e : Model.Change} (found : w.model? i = some m)
      (makes : c.Makes i e) (allowed : m.Allows e) : Effect w c (w.setModel i (m.apply e))

theorem effect_of_changes {c : Command} {i : ModelId} {m m' : Model}
    {fits : Model.Change → Prop} (hm : w.model? i = some m) (h : m.Changes m' fits)
    (hmakes : ∀ e, fits e → c.Makes i e) : w.Effect c (w.setModel i m') := by
  rcases h with rfl | ⟨e, hfits, hallowed, rfl⟩
  · rw [setModel_self hm]
    exact .same
  · exact .change hm (hmakes e hfits) hallowed

/-- The effect of a command that calls on a model. -/
theorem effect_of_call {α : Type} {c : Command} {i : ModelId} {outcome : α → Outcome}
    {call : Model → Except Error (α × Model)} {fits : Model.Change → Prop} {r : Result}
    (hcall : ∀ {m m' : Model} {x : α}, call m = .ok (x, m') → m.Changes m' fits)
    (hmakes : ∀ e, fits e → c.Makes i e)
    (h : (w.changeModel i fun m => (call m).map fun made => (outcome made.1, made.2)) = some r) :
    w.Effect c r.1 := by
  obtain ⟨m, hm, ⟨o, m', hchange, rfl⟩ | ⟨_, _, rfl⟩⟩ := changeModel_eq_some h
  · obtain ⟨⟨x, n⟩, hdone, heq⟩ := map_eq_ok_iff.1 hchange
    cases heq
    exact effect_of_changes hm (hcall hdone) hmakes
  · exact .same

/-- The effect of a command that calls on a registry. -/
theorem effect_of_registry {c : Command} {reg : RegistryRef} {fits : Model.Change → Prop}
    {call : Model → Except Error (Option ProcedureId × Model)} {r : Result}
    (hcall : ∀ {m m' : Model} {found : Option ProcedureId},
      call m = .ok (found, m') → m.Changes m' fits)
    (hmakes : ∀ e, fits e → c.Makes reg.model e) (h : w.changeRegistry reg call = some r) :
    w.Effect c r.1 := by
  obtain ⟨m, hm, ⟨found, m', hchange, rfl⟩ | ⟨_, _, rfl⟩⟩ := changeRegistry_eq_some h
  · exact effect_of_changes hm (hcall hchange) hmakes
  · exact .same

/-- The effect of a command that has a registry hand out a record. -/
theorem effect_of_handout {c : Command} {reg : RegistryRef} {fits : Model.Change → Prop}
    {call : Model → Except Error (ProcedureId × Model)} {r : Result}
    (hcall : ∀ {m m' : Model} {i : ProcedureId}, call m = .ok (i, m') → m.Changes m' fits)
    (hmakes : ∀ e, fits e → c.Makes reg.model e)
    (h : (w.changeRegistry reg fun m => (call m).map fun made => (some made.1, made.2)) = some r) :
    w.Effect c r.1 := by
  refine effect_of_registry (fun hchange => ?_) hmakes h
  obtain ⟨⟨i, n⟩, hdone, heq⟩ := map_eq_ok_iff.1 hchange
  cases heq
  exact hcall hdone

theorem effect_of_procedure {c : Command} {ref : ProcedureRef} {m : Model} {p : Procedure}
    {change : Procedure.Change} (hp : w.procedure? ref = some (m, p))
    (hallowed : p.Allows m.settings change)
    (hmakes : c.Makes ref.model (.procedure ref.id change)) :
    w.Effect c (w.setModel ref.model (m.setProcedure ref.id (p.apply change))) := by
  obtain ⟨hm, hget⟩ := procedure?_eq_some_iff.1 hp
  rw [Model.setProcedure_apply hget]
  exact .change hm hmakes ⟨p, hget, hallowed⟩

/-- A call that gives the same record back changes nothing. -/
theorem effect_of_same {c : Command} {ref : ProcedureRef} {m : Model} {p : Procedure}
    (hp : w.procedure? ref = some (m, p)) :
    w.Effect c (w.setModel ref.model (m.setProcedure ref.id p)) := by
  obtain ⟨hm, hget⟩ := procedure?_eq_some_iff.1 hp
  rw [Model.setProcedure_self hget, setModel_self hm]
  exact .same

/-- The effect of a command that writes to a procedure. -/
theorem effect_of_write {c : Command} {ref : ProcedureRef} {write : Procedure.Write}
    {s : Source} {r : Result}
    (hmakes : c.Makes ref.model (.procedure ref.id (.write write s)))
    (h : (w.changeProcedure ref fun settings p =>
      (p.write settings write s).map (negotiated p)) = some r) : w.Effect c r.1 := by
  obtain ⟨m, p, hp, ⟨o, q, hchange, rfl⟩ | ⟨_, _, rfl⟩⟩ := changeProcedure_eq_some h
  · obtain ⟨written, hwritten, heq⟩ := map_eq_ok_iff.1 hchange
    cases written with
    | none =>
        cases heq
        exact effect_of_same hp
    | some p' =>
        cases heq
        obtain ⟨hallowed, rfl⟩ := Procedure.write_eq_ok_some hwritten
        exact effect_of_procedure hp hallowed hmakes
  · exact .same

theorem effect_of_signature {c : Command} {ref : ProcedureRef} {signature : Signature}
    {s : Source} {r : Result}
    (hmakes : c.Makes ref.model (.procedure ref.id (.bind signature s)))
    (h : (w.changeProcedure ref fun settings p =>
      (p.bindSignature settings signature s).map fun p => (.done, p)) = some r) :
    w.Effect c r.1 := by
  obtain ⟨m, p, hp, ⟨o, q, hchange, rfl⟩ | ⟨_, _, rfl⟩⟩ := changeProcedure_eq_some h
  · obtain ⟨p', hbound, heq⟩ := map_eq_ok_iff.1 hchange
    cases heq
    obtain ⟨hallowed, rfl⟩ := Procedure.bindSignature_eq_ok hbound
    exact effect_of_procedure hp hallowed hmakes
  · exact .same

theorem effect_of_configure {ref : ProcedureRef} {statement : Procedure.Statement}
    {r : Result} (h : w.execute (.configure ref statement) = some r) :
    w.Effect (.configure ref statement) r.1 := by
  simp only [execute] at h
  obtain ⟨m, p, hp, ⟨o, q, hchange, rfl⟩ | ⟨_, _, rfl⟩⟩ := changeProcedure_eq_some h
  · obtain ⟨p', hconfigured, heq⟩ := map_eq_ok_iff.1 hchange
    cases heq
    obtain rfl | ⟨write, hasks, hallowed, rfl⟩ | ⟨signature, rfl, hallowed, rfl⟩ :=
      Procedure.configure_change hconfigured
    · exact effect_of_same hp
    · exact effect_of_procedure hp hallowed (.configureWrite hasks)
    · exact effect_of_procedure hp hallowed .configureSignature
  · exact .same

/-- **What a command does.**  Every command but `setUsing` makes a model, or one allowed change
to one model, or leaves everything as it is. -/
theorem execute_effect {c : Command} {r : Result} (hsingle : c.isSingle = true)
    (h : w.execute c = some r) : w.Effect c r.1 := by
  cases c with simp only [execute] at h
  | createModel config =>
      cases h
      exact .model rfl
  | addType i name base =>
      refine effect_of_call Model.addType_change ?_ h
      rintro e ⟨b, rfl⟩
      exact .addType
  | annotate i t name value s =>
      refine effect_of_call Model.annotate_change ?_ h
      rintro e ⟨j, entry, annotations, rfl⟩
      exact .annotate
  | unannotate i t name s =>
      refine effect_of_call Model.unannotate_change ?_ h
      rintro e ⟨j, entry, annotations, rfl⟩
      exact .unannotate
  | setDefaultSchema i schema s =>
      refine effect_of_call Model.setDefaultSchema_change ?_ h
      rintro e rfl
      exact .setDefaultSchema
  | finalize i =>
      obtain ⟨m, hm, ⟨o, m', hchange, rfl⟩ | ⟨_, hfail, _⟩⟩ := changeModel_eq_some h
      · cases hchange
        exact .change (e := .finalize) hm .finalize trivial
      · cases hfail
  | createRegistry i =>
      obtain ⟨m, hm, ⟨o, m', hchange, rfl⟩ | ⟨_, hfail, _⟩⟩ := changeModel_eq_some h
      · cases hchange
        exact .change (e := .registry) hm .createRegistry trivial
      · cases hfail
  | set reg owner op =>
      refine effect_of_handout Model.set_change ?_ h
      rintro e (⟨j, rfl⟩ | rfl)
      · exact .setAgain
      · exact .setNew
  | setUsing => cases hsingle
  | setConvention reg hierarchy owner op da =>
      split at h
      · cases h
      · refine effect_of_handout Model.setConvention_change ?_ h
        rintro e (⟨j, rfl⟩ | rfl)
        · exact .setConventionAgain
        · exact .setConventionNew
  | remove ref owner op =>
      refine effect_of_registry Model.remove_change ?_ h
      rintro e rfl
      exact .remove
  | removeConvention ref owner op da =>
      refine effect_of_registry Model.removeConvention_change ?_ h
      rintro e rfl
      exact .removeConvention
  | configure ref statement => exact effect_of_configure (by simpa only [execute] using h)
  | suggest ref write da => exact effect_of_write .suggest h
  | suggestSignature ref signature da => exact effect_of_signature .suggestSignature h
  | write ref write s => exact effect_of_write .write h
  | bindSignature ref signature s => exact effect_of_signature .bindSignature h
  | restamp ref s =>
      obtain ⟨m, p, hp, ⟨o, q, hchange, rfl⟩ | ⟨_, _, rfl⟩⟩ := changeProcedure_eq_some h
      · obtain ⟨p', hraised, heq⟩ := map_eq_ok_iff.1 hchange
        cases heq
        obtain ⟨hallowed, rfl⟩ := Procedure.restamp_eq_ok hraised
        exact effect_of_procedure hp hallowed .restamp
      · exact .same
  | createProcedure owner op s =>
      obtain ⟨m, hm, ⟨o, m', hchange, rfl⟩ | ⟨_, hfail, _⟩⟩ := changeModel_eq_some h
      · cases hchange
        exact .change (e := .stray owner op s) hm .createProcedure trivial
      · cases hfail
  | detach ref =>
      obtain ⟨m, p, hp, ⟨o, q, hchange, rfl⟩ | ⟨_, hfail, _⟩⟩ := changeProcedure_eq_some h
      · cases hchange
        have hallowed : p.Allows m.settings .detach := trivial
        exact effect_of_procedure hp hallowed .detach
      · cases hfail

/-! ## Seen from one model -/

/-- A model that was there is there afterwards, as it was or with one change. -/
theorem Effect.model_after {c : Command} {i : ModelId} {m : Model} (h : w.Effect c w')
    (hm : w.model? i = some m) :
    w'.model? i = some m ∨
      ∃ e, c.Makes i e ∧ m.Allows e ∧ w'.model? i = some (m.apply e) := by
  cases h with
  | same => exact .inl hm
  | model =>
      have hi : i < w.models.length := (List.getElem?_eq_some_iff.1 hm).1
      left
      unfold model?
      rw [List.getElem?_append_left hi]
      exact hm
  | @change j n e found makes allowed =>
      rw [model?_setModel found]
      by_cases hij : j = i
      · subst hij
        obtain rfl : n = m := Option.some.inj (found.symm.trans hm)
        exact .inr ⟨e, makes, allowed, if_pos rfl⟩
      · exact .inl (by rw [if_neg hij, hm])

/-- A model that is there afterwards is new, or was there, as it is or up to one change. -/
theorem Effect.model_before {c : Command} {i : ModelId} {m' : Model} (h : w.Effect c w')
    (hm : w'.model? i = some m') :
    (∃ config, i = w.models.length ∧ m' = .new i config) ∨
      ∃ m, w.model? i = some m ∧
        (m' = m ∨ ∃ e, c.Makes i e ∧ m.Allows e ∧ m' = m.apply e) := by
  cases h with
  | same => exact .inr ⟨m', hm, .inl rfl⟩
  | @model config made =>
      by_cases hi : i < w.models.length
      · have hold : w.model? i = some m' := by
          simpa [model?, List.getElem?_append_left hi] using hm
        exact .inr ⟨m', hold, .inl rfl⟩
      · have hlast : i = w.models.length := by
          have hlt : i < (w.models ++ [Model.new w.models.length config]).length :=
            (List.getElem?_eq_some_iff.1 hm).1
          rw [List.length_append, List.length_singleton] at hlt
          exact Nat.le_antisymm (Nat.le_of_lt_succ hlt) (Nat.le_of_not_lt hi)
        subst hlast
        have hnew : Model.new w.models.length config = m' := by simpa [model?] using hm
        exact .inl ⟨config, rfl, hnew.symm⟩
  | @change j n e found makes allowed =>
      rw [model?_setModel found] at hm
      by_cases hij : j = i
      · subst hij
        rw [if_pos rfl] at hm
        exact .inr ⟨n, found, .inr ⟨e, makes, allowed, (Option.some.inj hm).symm⟩⟩
      · rw [if_neg hij] at hm
        exact .inr ⟨m', hm, .inl rfl⟩

end Workspace

end ProcedureMapping
