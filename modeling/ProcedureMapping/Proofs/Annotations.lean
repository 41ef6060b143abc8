import ProcedureMapping.Proofs.AnnotationHistory
import ProcedureMapping.Proofs.Conventions
import ProcedureMapping.Proofs.Precedence

/-!
# Annotations through a run

Annotations are kept on entity types, on procedures and on the parameters of procedures.  Each such
**place** has a store of its own, which is empty when the place comes about, and nothing reaches the
store but the calls on the place.  So the store of a place follows the replies that these calls got,
and what holds of a store after any calls holds of it.

A place is **live** while its model is not finalized and, for a procedure and its parameters, the
procedure is not removed.  On a live place no call is refused.

Main statements:

* `Model.edit_eq_ok_iff`, `Procedure.heed_edit` — a call on a place is a call on its store;
* `step_replies` — what a step does to the store of a place;
* `Run.follows` — the store of a place follows its replies;
* `annotations_lawful` — what holds of annotations, through any run.
-/

namespace ProcedureMapping

open AnnotationStore (Edit Reply Follows Lawful)

/-! ## Types -/

namespace Model

variable {m m' : Model} {t : EntityRef} {entry : EntityType} {e : Edit} {b : Bool}

/-- A call on the annotations of a type. -/
def edit (m : Model) (t : EntityRef) : Edit → Except Error (Bool × Model)
  | .write name value s => m.annotate t name value s
  | .remove name s => m.unannotate t name s

theorem requireEntry_eq_ok_iff : m.requireEntry t = .ok entry ↔
    m.settings.readOnly = false ∧ m.entry? t = some entry := by
  rw [requireEntry, bind_eq_ok_iff]
  constructor
  · rintro ⟨_, hopen, hfound⟩
    refine ⟨ModelSettings.ensureWritable_eq_ok_iff.1 hopen, ?_⟩
    cases hentry : m.entry? t with
    | none => simp [hentry] at hfound
    | some found => simpa [hentry] using hfound
  · rintro ⟨hopen, hentry⟩
    exact ⟨(), ModelSettings.ensureWritable_eq_ok_iff.2 hopen, by rw [hentry]⟩

theorem type_of_found (h : m.entry? t = some entry) :
    t.model = m.id ∧ m.types[t.id]? = some entry := by
  unfold entry? at h
  split at h
  · next hmodel => exact ⟨hmodel, h⟩
  · cases h

theorem setAnnotations_self {i : TypeId} (h : m.types[i]? = some entry) :
    m.setAnnotations i entry entry.annotations = m := by
  have hsame : ({ entry with annotations := entry.annotations } : EntityType) = entry := rfl
  obtain ⟨hi, hentry⟩ := List.getElem?_eq_some_iff.1 h
  rw [setAnnotations, hsame, ← hentry, List.set_getElem_self]

/-- **A call on a type** is a call on its store, while the model is not finalized. -/
theorem edit_eq_ok_iff : m.edit t e = .ok (b, m') ↔
    ∃ entry, m.settings.readOnly = false ∧ m.entry? t = some entry ∧
      b = (entry.annotations.take e).1 ∧
      m' = m.setAnnotations t.id entry (entry.annotations.take e).2 := by
  have hedit : ∀ {entry}, m.entry? t = some entry → m.edit t e = (m.requireEntry t).bind fun _ =>
      .ok ((entry.annotations.take e).1,
        m.setAnnotations t.id entry (entry.annotations.take e).2) := by
    intro entry hentry
    have hself := setAnnotations_self (type_of_found hentry).2
    cases hrequired : m.requireEntry t with
    | error x => cases e <;> simp [edit, annotate, unannotate, hrequired, bind, Except.bind]
    | ok found =>
        obtain ⟨_, hfound⟩ := requireEntry_eq_ok_iff.1 hrequired
        obtain rfl : found = entry := Option.some.inj (hfound.symm.trans hentry)
        cases e with
        | write name value s =>
            cases hwritten : found.annotations.write? name value s <;>
              simp [edit, annotate, hrequired, bind, Except.bind, AnnotationStore.take, hwritten,
                hself]
        | remove name s =>
            cases hremoved : found.annotations.removed? name s <;>
              simp [edit, unannotate, hrequired, bind, Except.bind, AnnotationStore.take, hremoved,
                hself]
  constructor
  · intro h
    have hrequired : ∃ entry, m.requireEntry t = .ok entry := by
      cases e <;> exact (bind_eq_ok_iff.1 h).imp fun _ => And.left
    obtain ⟨entry, hrequired⟩ := hrequired
    obtain ⟨hopen, hentry⟩ := requireEntry_eq_ok_iff.1 hrequired
    rw [hedit hentry, hrequired] at h
    cases h
    exact ⟨entry, hopen, hentry, rfl, rfl⟩
  · rintro ⟨entry, hopen, hentry, rfl, rfl⟩
    rw [hedit hentry, requireEntry_eq_ok_iff.2 ⟨hopen, hentry⟩]
    rfl

theorem annotations_setAnnotations {i j : TypeId} {store : AnnotationStore}
    (h : m.types[i]? = some entry) :
    (m.setAnnotations i entry store).types[j]?.map EntityType.annotations =
      if i = j then some store else m.types[j]?.map EntityType.annotations := by
  obtain ⟨hi, _⟩ := List.getElem?_eq_some_iff.1 h
  by_cases hij : i = j
  · subst hij
    simp [setAnnotations, hi]
  · simp [setAnnotations, hij, List.getElem?_set_ne hij]

end Model

/-- Whether a store is as it was, or new and empty. -/
def AnnotationStore.Persists (before after : Option AnnotationStore) : Prop :=
  after = before ∨ before = none ∧ after = some .empty

open AnnotationStore (Persists)

/-- Any other change leaves the annotations of the types alone. -/
theorem Model.annotations_apply {m : Model} {e : Change}
    (hother : ∀ i entry store, e ≠ .annotations i entry store) (j : TypeId) :
    Persists (m.types[j]?.map EntityType.annotations)
      ((m.apply e).types[j]?.map EntityType.annotations) := by
  cases e with
  | type name base =>
      by_cases hj : j < m.types.length
      · exact .inl (by simp [apply, List.getElem?_append_left hj])
      · have hnone : m.types[j]? = none := List.getElem?_eq_none_iff.2 (Nat.le_of_not_lt hj)
        by_cases hlast : j = m.types.length
        · exact .inr (by simp [apply, hlast])
        · left
          have hgone : (m.types ++ [⟨name, base, .empty⟩])[j]? = none := by
            rw [List.getElem?_eq_none_iff, List.length_append, List.length_singleton]
            exact Nat.lt_of_le_of_ne (Nat.le_of_not_lt hj) (Ne.symm hlast)
          rw [apply, hgone, hnone]
  | annotations i entry store => exact absurd rfl (hother i entry store)
  | vacate r owner op s =>
      left
      rcases m.vacate_cases r owner op s with hm | ⟨_, _, hm⟩ <;> rw [hm]
  | _ => exact .inl rfl

/-! ## Records -/

namespace Procedure

/-- Where a record keeps annotations: on itself, or on a parameter. -/
inductive Part where
  | self
  | parameter (name : String)

def annotationsOf? (p : Procedure) : Part → Option AnnotationStore
  | .self => some p.annotations
  | .parameter name => (p.findParameter? name).map Parameter.annotations

/-- The call on the store of a part that a write is, if it is one. -/
def Write.edit? (w : Write) (s : Source) (part : Part) : Option Edit :=
  match part, w with
  | .self, .annotate key value => some (.write key value s)
  | .self, .unannotate key => some (.remove key s)
  | .parameter target, .parameter other (.annotate key value) =>
      if other = target then some (.write key value s) else none
  | _, _ => none

variable {settings : ModelSettings} {p : Procedure} {w : Write} {s : Source} {part : Part}
  {e : Edit} {change : Change}

/-- **A write to annotations** is a call on their store. -/
theorem heed_edit (hedit : w.edit? s part = some e)
    (hdeclared : p.ensureDeclared settings w = .ok ()) :
    ∃ store, p.annotationsOf? part = some store ∧
      store.Answers ⟨e, p.accepts settings w s⟩ ∧
      (p.heed settings w s).annotationsOf? part = some (store.take e).2 := by
  unfold Write.edit? at hedit
  split at hedit
  · next name value =>
      cases hedit
      refine ⟨p.annotations, rfl, .inl ?_, ?_⟩
      · rw [AnnotationStore.take_write]
        rfl
      · rw [AnnotationStore.take_write, heed]
        by_cases h : p.annotations.accepts name value s = true <;>
          simp [accepts, h, annotationsOf?, record]
  · next name =>
      cases hedit
      refine ⟨p.annotations, rfl, p.annotations.answers_remove name s, ?_⟩
      rw [AnnotationStore.take_remove_snd, heed]
      by_cases h : p.annotations.releases name s = true <;>
        simp [accepts, h, annotationsOf?, record]
  · next name other key value =>
      split at hedit
      · next hname =>
          subst hname
          cases hedit
          have hfound : (p.findParameter? other).isSome = true := by
            by_contra hnot
            simp [ensureDeclared, hnot] at hdeclared
          obtain ⟨q, hq⟩ := Option.isSome_iff_exists.1 hfound
          have haccepts : p.accepts settings (.parameter other (.annotate key value)) s =
              q.annotations.accepts key value s := by
            simp [accepts, hq, Parameter.accepts]
          refine ⟨q.annotations, by simp [annotationsOf?, hq], .inl ?_, ?_⟩
          · rw [AnnotationStore.take_write]
            exact haccepts
          · rw [AnnotationStore.take_write, heed, haccepts]
            by_cases h : q.annotations.accepts key value s = true
            · rw [if_pos h, annotationsOf?, findParameter?_record, hq]
              simp [Parameter.record, h]
            · simp [h, annotationsOf?, hq]
      · cases hedit
  · cases hedit

/-- Any other write leaves the annotations alone. -/
theorem heed_other (hedit : w.edit? s part = none) :
    (p.heed settings w s).annotationsOf? part = p.annotationsOf? part := by
  rcases p.heed_eq settings w s with hsame | happly
  · rw [hsame]
  · rw [happly]
    cases part with
    | self =>
        cases w with
        | annotate | unannotate => cases hedit
        | _ => rfl
    | parameter name =>
        cases w with
        | parameter other v =>
            rw [apply, annotationsOf?, findParameter?_record, Option.map_map]
            refine Option.map_congr fun q _ => ?_
            by_cases hname : name = other
            · subst hname
              cases v with
              | annotate => simp [Write.edit?] at hedit
              | _ => simp [Parameter.record]
            · simp [hname]
        | _ => rfl

/-- What is no write leaves the annotations of a record alone, but for new parameters. -/
theorem annotationsOf?_apply (hallowed : p.Allows settings change)
    (hother : ∀ w s, change ≠ .write w s) (part : Part) :
    Persists (p.annotationsOf? part) ((p.apply change).annotationsOf? part) := by
  cases change with
  | write w s => exact absurd rfl (hother w s)
  | bind signature s =>
      cases part with
      | self => exact .inl rfl
      | parameter name =>
          obtain ⟨hfree, hunique⟩ := hallowed.unbound
          have hnone : p.annotationsOf? (.parameter name) = none := by
            simp [annotationsOf?, findParameter?, p.unbound hfree]
          cases hfound : (p.bound signature s).findParameter? name with
          | none => exact .inl (by rw [hnone, apply, annotationsOf?, hfound, Option.map_none])
          | some q =>
              refine .inr ⟨hnone, ?_⟩
              obtain ⟨_, rfl⟩ := findParameter?_bound hfree hunique hfound
              rw [apply, annotationsOf?, hfound]
              rfl
  | raise | detach => exact .inl (by cases part <;> rfl)

end Procedure

/-! ## Places -/

/-- Where annotations are kept. -/
inductive Place where
  | type (model : ModelId) (id : TypeId)
  | record (ref : ProcedureRef) (part : Procedure.Part)

/-- The call on the annotations of a type that a command is, if it is one. -/
def Command.typeEdit? : Command → Option (ModelId × EntityRef × Edit)
  | annotate i t name value s => some (i, t, .write name value s)
  | unannotate i t name s => some (i, t, .remove name s)
  | _ => none

/-- The call on the annotations of a place that a command is, if it is one. -/
def Command.edit? (c : Command) : Place → Option Edit
  | .type i j =>
      match c.typeEdit? with
      | some (k, t, e) => if k = i ∧ t.model = i ∧ t.id = j then some e else none
      | none => none
  | .record ref part => (c.request? ref).bind fun (w, s) => w.edit? s part

/-- Whether a command that did not fail was accepted. -/
def Outcome.accepted : Outcome → Bool
  | applied b => b
  | _ => true

/-- The reply that a call on a place got in a step, unless it was refused. -/
def Step.reply? (place : Place) (s : Step) : Option Reply :=
  match s.answer with
  | .ok o => (s.command.edit? place).map fun e => ⟨e, o.accepted⟩
  | .error _ => none

/-- The replies that the calls on a place got, but for those that were refused. -/
def replies (place : Place) (steps : List Step) : List Reply := steps.filterMap (Step.reply? place)

namespace Workspace

/-- The annotations of a type. -/
def typeAnnotations? (w : Workspace) (i : ModelId) (j : TypeId) : Option AnnotationStore :=
  (w.model? i).bind fun m => m.types[j]?.map EntityType.annotations

/-- The annotations of a part of a procedure. -/
def partAnnotations? (w : Workspace) (ref : ProcedureRef) (part : Procedure.Part) :
    Option AnnotationStore :=
  (w.procedure? ref).bind fun found => found.2.annotationsOf? part

/-- The annotations of a place. -/
def annotations? (w : Workspace) : Place → Option AnnotationStore
  | .type i j => w.typeAnnotations? i j
  | .record ref part => w.partAnnotations? ref part

/-- Whether the model of a place is not finalized, and its procedure, if it has one, not removed. -/
def Live (w : Workspace) : Place → Prop
  | .type i _ => ∃ m, w.model? i = some m ∧ m.settings.readOnly = false
  | .record ref _ => ∃ m p, w.procedure? ref = some (m, p) ∧ p.isWritable m.settings = true

variable {w w' : Workspace} {c : Command} {place : Place} {ref : ProcedureRef} {i k : ModelId}
  {j : TypeId} {t : EntityRef} {e : Edit} {o : Outcome} {steps : List Step}
  {part : Procedure.Part} {write : Procedure.Write} {s : Source}

/-! ### Calls on types -/

theorem execute_typeEdit (h : c.typeEdit? = some (k, t, e)) :
    w.execute c =
      w.changeModel k fun m => (m.edit t e).map fun (b, m) => (.applied b, m) := by
  cases c with
  | annotate | unannotate =>
      cases h
      rfl
  | _ => cases h

theorem typeAnnotations?_setModel {m m' : Model} (hm : w.model? k = some m) :
    (w.setModel k m').typeAnnotations? i j =
      if k = i then m'.types[j]?.map EntityType.annotations else w.typeAnnotations? i j := by
  unfold typeAnnotations?
  rw [model?_setModel hm]
  by_cases hki : k = i <;> simp [hki]

/-- What a call on a type does that is not refused. -/
theorem execute_typeEdit_ok (hnumbered : w.Numbered) (h : c.typeEdit? = some (k, t, e))
    (hdoes : w.execute c = some (w', .ok o)) :
    ∃ store, t.model = k ∧ w.typeAnnotations? k t.id = some store ∧
      o.accepted = (store.take e).1 ∧ ∀ i j, w'.typeAnnotations? i j =
        if k = i ∧ t.id = j then some (store.take e).2 else w.typeAnnotations? i j := by
  rw [execute_typeEdit h] at hdoes
  obtain ⟨m, m', hm, hchange, rfl⟩ := changeModel_ok hdoes
  obtain ⟨⟨b, n⟩, hedit, heq⟩ := map_eq_ok_iff.1 hchange
  cases heq
  obtain ⟨entry, _, hentry, rfl, rfl⟩ := Model.edit_eq_ok_iff.1 hedit
  obtain ⟨hmodel, htype⟩ := Model.type_of_found hentry
  have hid : m.id = k := hnumbered k m hm
  refine ⟨entry.annotations, hmodel.trans hid, by simp [typeAnnotations?, hm, htype], rfl, ?_⟩
  intro i j
  rw [typeAnnotations?_setModel hm, Model.annotations_setAnnotations htype]
  by_cases hki : k = i
  · subst hki
    by_cases hj : t.id = j
    · simp [hj]
    · simp [hj, typeAnnotations?, hm]
  · simp [hki]

/-- Any other command leaves the annotations of the types alone. -/
theorem Effect.typeAnnotations (h : w.Effect c w') (hother : c.typeEdit? = none) (i : ModelId)
    (j : TypeId) :
    AnnotationStore.Persists (w.typeAnnotations? i j) (w'.typeAnnotations? i j) := by
  unfold typeAnnotations?
  cases hm : w.model? i with
  | none =>
      cases hm' : w'.model? i with
      | none => exact .inl rfl
      | some m' =>
          rcases h.model_before hm' with ⟨config, _, rfl⟩ | ⟨m, hm₁, _⟩
          · exact .inl rfl
          · rw [hm] at hm₁
            cases hm₁
  | some m =>
      rcases h.model_after hm with hsame | ⟨change, hmakes, _, hafter⟩
      · rw [hsame]
        exact .inl rfl
      · rw [hafter]
        refine Model.annotations_apply ?_ j
        rintro l entry store rfl
        cases hmakes <;> cases hother

/-! ### Calls on records -/

/-- What a call on a record found that was not refused, and what it answered. -/
theorem execute_request_ok (hreq : c.request? ref = some (write, s))
    (h : w.execute c = some (w', .ok o)) :
    ∃ m p, w.procedure? ref = some (m, p) ∧ p.ensureDeclared m.settings write = .ok () ∧
      o.accepted = p.accepts m.settings write s := by
  have hnegotiated : (w.changeProcedure ref fun settings p =>
      (p.write settings write s).map (negotiated p)) = some (w', .ok o) →
      ∃ m p, w.procedure? ref = some (m, p) ∧ p.ensureDeclared m.settings write = .ok () ∧
        o.accepted = p.accepts m.settings write s := by
    intro hdoes
    obtain ⟨m, p, q, hp, hchange, _⟩ := changeProcedure_ok hdoes
    obtain ⟨r, hr, heq⟩ := map_eq_ok_iff.1 hchange
    obtain ⟨_, hdeclared, rfl⟩ := Procedure.write_eq_ok_iff.1 hr
    refine ⟨m, p, hp, hdeclared, ?_⟩
    by_cases haccepts : p.accepts m.settings write s = true
    · rw [if_pos haccepts] at heq
      cases heq
      exact haccepts.symm
    · rw [if_neg haccepts] at heq
      cases heq
      exact (Bool.eq_false_iff.2 haccepts).symm
  rcases Command.request?_eq_some hreq with ⟨statement, rfl, hv, rfl⟩ | ⟨da, rfl, rfl⟩ | rfl
  · simp only [execute] at h
    obtain ⟨m, p, q, hp, hchange, _⟩ := changeProcedure_ok h
    obtain ⟨q, hq, heq⟩ := map_eq_ok_iff.1 hchange
    cases heq
    have hover := Procedure.overwrite_of_configure hv hq
    obtain ⟨r, hr, _⟩ := bind_eq_ok_iff.1 hover
    obtain ⟨hallowed, _⟩ := Procedure.overwrite_eq_ok hover
    exact ⟨m, p, hp, (Procedure.write_eq_ok_iff.1 hr).2.1, (Bool.and_eq_true_iff.1 hallowed).2.symm⟩
  · exact hnegotiated h
  · exact hnegotiated h

/-- **What a call on a record does** to the annotations of the record. -/
theorem execute_request_annotations (hreq : c.request? ref = some (write, s))
    (h : w.execute c = some (w', .ok o)) (part : Procedure.Part) :
    match write.edit? s part with
    | some e => ∃ store, w.partAnnotations? ref part = some store ∧
        store.Answers ⟨e, o.accepted⟩ ∧ w'.partAnnotations? ref part = some (store.take e).2
    | none => w'.partAnnotations? ref part = w.partAnnotations? ref part := by
  obtain ⟨m, p, hp, hdeclared, haccepted⟩ := execute_request_ok hreq h
  have hafter : w'.partAnnotations? ref part =
      (p.heed m.settings write s).annotationsOf? part := by
    rw [execute_request hreq h hp, partAnnotations?, procedure?_setProcedure hp, Option.bind_some]
  have hbefore : w.partAnnotations? ref part = p.annotationsOf? part := by
    rw [partAnnotations?, hp, Option.bind_some]
  rw [hafter, hbefore, haccepted]
  cases hedit : write.edit? s part with
  | none => exact Procedure.heed_other hedit
  | some e => exact Procedure.heed_edit hedit hdeclared

/-- Any other command leaves the annotations of a record alone, but for new parameters. -/
theorem Effect.partAnnotations (h : w.Effect c w') (hreq : c.request? ref = none)
    (part : Procedure.Part) :
    AnnotationStore.Persists (w.partAnnotations? ref part) (w'.partAnnotations? ref part) := by
  cases hp : w.procedure? ref with
  | none =>
      have hnone : w.partAnnotations? ref part = none := by
        rw [partAnnotations?, hp, Option.bind_none]
      cases hp' : w'.procedure? ref with
      | none => exact .inl (by rw [hnone, partAnnotations?, hp', Option.bind_none])
      | some found =>
          obtain ⟨m', p'⟩ := found
          rcases h.procedure_before hp' with ⟨m, p, hold, _⟩ | ⟨_, _, owner, op, s, rfl, _⟩
          · rw [hp] at hold
            cases hold
          · have hnew : w'.partAnnotations? ref part =
                (Procedure.fresh owner op s).annotationsOf? part := by
              rw [partAnnotations?, hp', Option.bind_some]
            cases part with
            | self => exact .inr ⟨hnone, hnew⟩
            | parameter name => exact .inl (by rw [hnone, hnew]; rfl)
  | some found =>
      obtain ⟨m, p⟩ := found
      obtain ⟨m', p', hp', hafter⟩ := h.procedure_after hp
      rw [partAnnotations?, partAnnotations?, hp, hp', Option.bind_some, Option.bind_some]
      rcases hafter with ⟨_, rfl⟩ | ⟨e, hmakes, hallowed, _, rfl | ⟨change, hacts, rfl⟩⟩
      · exact .inl rfl
      · exact .inl rfl
      · cases hacts with
        | vacate held => exact .inl (by cases part <;> rfl)
        | procedure =>
            have hallows := hallowed.procedure (procedure?_eq_some_iff.1 hp).2
            refine Procedure.annotationsOf?_apply hallows ?_ part
            rintro write s rfl
            rw [hmakes.request] at hreq
            cases hreq

/-! ### Runs -/

/-- **What a step does to the store of a place**: a call on the place that is not refused is a call
on the store, and nothing else reaches it. -/
theorem step_replies {a : Except Error Outcome} (hnumbered : w.Numbered)
    (hsingle : c.isSingle = true) (hdoes : w.execute c = some (w', a)) (place : Place) :
    match Step.reply? place ⟨c, a⟩ with
    | some r => ∃ store, w.annotations? place = some store ∧ store.Answers r ∧
        w'.annotations? place = some (store.take r.edit).2
    | none => AnnotationStore.Persists (w.annotations? place) (w'.annotations? place) := by
  cases a with
  | error x =>
      rw [execute_error hsingle hdoes]
      exact .inl rfl
  | ok o =>
      have heffect := execute_effect hsingle hdoes
      have hreply : Step.reply? place ⟨c, .ok o⟩ =
          (c.edit? place).map fun e => ⟨e, o.accepted⟩ := rfl
      rw [hreply]
      cases place with
      | type i j =>
          simp only [Command.edit?, annotations?]
          cases hedit : c.typeEdit? with
          | none => exact heffect.typeAnnotations hedit i j
          | some call =>
              obtain ⟨k, t, e⟩ := call
              obtain ⟨store, hmodel, hstore, haccepted, hafter⟩ :=
                execute_typeEdit_ok hnumbered hedit hdoes
              by_cases hplace : k = i ∧ t.id = j
              · obtain ⟨rfl, rfl⟩ := hplace
                simp only [hmodel, and_self, if_true, Option.map_some]
                exact ⟨store, hstore, .inl haccepted, by rw [hafter, if_pos ⟨rfl, rfl⟩]⟩
              · have hother : ¬ (k = i ∧ t.model = i ∧ t.id = j) :=
                  fun h => hplace ⟨h.1, h.2.2⟩
                simp only [hother, if_false, Option.map_none]
                exact .inl (by rw [hafter, if_neg hplace])
      | record ref part =>
          simp only [Command.edit?, annotations?]
          cases hreq : c.request? ref with
          | none => exact heffect.partAnnotations hreq part
          | some request =>
              obtain ⟨write, s⟩ := request
              have hdone := execute_request_annotations hreq hdoes part
              rw [Option.bind_some]
              dsimp only at hdone ⊢
              cases hedit : write.edit? s part with
              | none =>
                  rw [hedit] at hdone
                  exact .inl hdone
              | some e =>
                  rw [hedit] at hdone
                  exact hdone

theorem replies_append (place : Place) (steps : List Step) (s : Step) :
    replies place (steps ++ [s]) = replies place steps ++ (s.reply? place).toList := by
  unfold replies
  rw [List.filterMap_append]
  cases h : s.reply? place <;> simp [h]

/-- **The store of a place follows its replies**, and a place that is not there yet has none. -/
theorem Run.follows (h : FreeRun .empty steps w) (place : Place) :
    match w.annotations? place with
    | some store => Follows (replies place steps) store
    | none => replies place steps = [] := by
  induction h with
  | nil => cases place <;> rfl
  | @snoc steps v v' c a before single _ does ih =>
      have hstep := step_replies (Run.numbered before empty_models) single does place
      rw [replies_append]
      cases hreply : Step.reply? place ⟨c, a⟩ with
      | some r =>
          rw [hreply] at hstep
          obtain ⟨store, hstore, hanswers, hafter⟩ := hstep
          rw [hstore] at ih
          rw [hafter]
          exact .call ih hanswers
      | none =>
          rw [hreply] at hstep
          rw [Option.toList_none, List.append_nil]
          rcases hstep with hsame | ⟨hnone, hnew⟩
          · rw [hsame]
            exact ih
          · rw [hnone] at ih
            rw [hnew, ih]
            exact .empty

/-! ### Live places -/

/-- An explicit statement about annotations is written without any other check. -/
theorem configure_eq_overwrite {settings : ModelSettings} {p : Procedure}
    {statement : Procedure.Statement} (hwrite : statement.write? = some write)
    (hedit : write.edit? s part = some e) :
    p.configure settings statement = p.overwrite settings write := by
  cases statement with
  | name | defaultName | schema =>
      cases hwrite
      cases part <;> cases hedit
  | signature | select => cases hwrite
  | annotate | unannotate | parameter =>
      cases hwrite
      rfl

theorem ensureDeclared_of_edit (settings : ModelSettings) {p : Procedure}
    {store : AnnotationStore} (hstore : p.annotationsOf? part = some store)
    (hedit : write.edit? s part = some e) : p.ensureDeclared settings write = .ok () := by
  cases write with
  | parameter other v =>
      cases part with
      | self => cases hedit
      | parameter name =>
          obtain ⟨q, hq, _⟩ := Option.map_eq_some_iff.1 hstore
          cases v with
          | annotate key value =>
              have hname : other = name := by
                by_contra hne
                simp [Procedure.Write.edit?, hne] at hedit
              simp [Procedure.ensureDeclared, hname, hq]
          | storeType | typeMapping => cases hedit
  | _ => rfl

/-- **No call on a live place is refused.** -/
theorem execute_live {store : AnnotationStore} (hnumbered : w.Numbered) (hlive : w.Live place)
    (hstore : w.annotations? place = some store) (hedit : c.edit? place = some e) :
    ∃ w' o, w.execute c = some (w', .ok o) := by
  cases place with
  | type i j =>
      obtain ⟨m, hm, hopen⟩ := hlive
      simp only [Command.edit?] at hedit
      cases hcall : c.typeEdit? with
      | none =>
          rw [hcall] at hedit
          cases hedit
      | some call =>
          obtain ⟨k, t, e'⟩ := call
          rw [hcall] at hedit
          obtain ⟨⟨rfl, hmodel, rfl⟩, heq⟩ := Option.ite_none_right_eq_some.1 hedit
          simp only [annotations?, typeAnnotations?, hm, Option.bind_some] at hstore
          obtain ⟨entry, htype, _⟩ := Option.map_eq_some_iff.1 hstore
          have hentry : m.entry? t = some entry := by
            rw [Model.entry?, if_pos (hmodel.trans (hnumbered k m hm).symm), htype]
          have hdone : m.edit t e' = .ok (_, _) :=
            Model.edit_eq_ok_iff.2 ⟨entry, hopen, hentry, rfl, rfl⟩
          rw [execute_typeEdit hcall]
          simp only [changeModel, hm, hdone, Except.map]
          exact ⟨_, _, rfl⟩
  | record ref part =>
      obtain ⟨m, p, hp, hopen⟩ := hlive
      obtain ⟨⟨write, s⟩, hreq, hwrite⟩ := Option.bind_eq_some_iff.1 hedit
      simp only [annotations?, partAnnotations?, hp, Option.bind_some] at hstore
      have hdeclared := ensureDeclared_of_edit m.settings hstore hwrite
      have hdone : p.write m.settings write s = .ok _ :=
        Procedure.write_eq_ok_iff.2 ⟨hopen, hdeclared, rfl⟩
      rcases Command.request?_eq_some hreq with ⟨statement, rfl, hv, rfl⟩ | ⟨da, rfl, rfl⟩ | rfl
      · have hdefined : ∃ q, p.configure m.settings statement = .ok q := by
          rw [configure_eq_overwrite hv hwrite]
          exact ⟨_, bind_eq_ok_iff.2 ⟨_, hdone, rfl⟩⟩
        obtain ⟨q, hconfigured⟩ := hdefined
        simp only [execute]
        exact ⟨_, _, changeProcedure_of_ok hp hconfigured⟩
      · simp only [execute]
        exact ⟨_, _, changeProcedure_of_ok hp hdone⟩
      · simp only [execute]
        exact ⟨_, _, changeProcedure_of_ok hp hdone⟩

theorem isSingle_of_edit (h : c.edit? place = some e) : c.isSingle = true := by
  cases c with
  | setUsing => cases place <;> cases h
  | _ => rfl

/-- **What a call on a live place does**: the place takes it as its store does. -/
theorem execute_edit {store : AnnotationStore} (hnumbered : w.Numbered)
    (hlive : w.Live place) (hstore : w.annotations? place = some store)
    (hedit : c.edit? place = some e) :
    ∃ w' o, w.execute c = some (w', .ok o) ∧ store.Answers ⟨e, o.accepted⟩ ∧
      w'.annotations? place = some (store.take e).2 := by
  obtain ⟨w', o, hdoes⟩ := execute_live hnumbered hlive hstore hedit
  have hstep := step_replies hnumbered (isSingle_of_edit hedit) hdoes place
  have hreply : Step.reply? place ⟨c, .ok o⟩ = some ⟨e, o.accepted⟩ := by
    simp [Step.reply?, hedit]
  rw [hreply] at hstep
  obtain ⟨store', hstore', hanswers, hafter⟩ := hstep
  obtain rfl : store = store' := Option.some.inj (hstore.symm.trans hstore')
  exact ⟨w', o, hdoes, hanswers, hafter⟩

/-! ### What holds of annotations -/

/-- **What holds of annotations.**  It holds of a store by itself, after any calls from the empty
one on; and through any run of any commands it holds of the store of each place, with the replies
that the calls on the place got.  No call on a live place is refused, and the place takes it as a
store does. -/
theorem annotations_lawful :
    Equivalence (fun v v' : Json.Value => v.same v' = true) ∧
      (∀ edits : List Edit, Lawful (AnnotationStore.empty.takeAll edits).1
        (AnnotationStore.empty.takeAll edits).2) ∧
      ∀ steps w, FreeRun .empty steps w → ∀ place store, w.annotations? place = some store →
        Lawful (replies place steps) store ∧
          (w.Live place → ∀ c e, c.edit? place = some e → ∃ w' o,
            w.execute c = some (w', .ok o) ∧ store.Answers ⟨e, o.accepted⟩ ∧
              w'.annotations? place = some (store.take e).2) := by
  refine ⟨⟨Json.Value.same_refl, ?_, Json.Value.same_trans _ _ _⟩, ?_, ?_⟩
  · intro v v' hsame
    rw [Json.Value.same_comm, hsame]
  · intro edits
    exact (Follows.empty.takeAll edits).lawful
  · intro steps w h place store hstore
    have hfollows := Run.follows h place
    rw [hstore] at hfollows
    refine ⟨hfollows.lawful, ?_⟩
    intro hlive c e hedit
    exact execute_edit (Run.numbered h empty_models) hlive hstore hedit

/-- An explicit annotation that a convention cannot change, until it is removed. -/
def annotated : List Step × Workspace :=
  (carryOn (fun _ _ => True) [] .empty
    [.createModel .standard, .addType 0 "Blog" none, .createRegistry 0,
      .set ⟨0, 0⟩ ⟨0, 0, "Blog"⟩ .insert, .configure ⟨0, 0⟩ (.annotate "table" (.string "blogs")),
      .suggest ⟨0, 0⟩ (.annotate "table" (.string "posts")) true,
      .suggest ⟨0, 0⟩ (.unannotate "table") true, .configure ⟨0, 0⟩ (.unannotate "table"),
      .suggest ⟨0, 0⟩ (.annotate "table" (.string "posts")) true]).get rfl

/-- What the convention wrote last is there, and it is the only note. -/
theorem annotations_lawful_annotated :
    ∃ store, annotated.2.annotations? (.record ⟨0, 0⟩ .self) = some store ∧
      Lawful (replies (.record ⟨0, 0⟩ .self) annotated.1) store ∧
      AnnotationStore.notes "table" (replies (.record ⟨0, 0⟩ .self) annotated.1) =
        [⟨.string "posts", .annotated⟩] ∧
      store.get? "table" = some ⟨.string "posts", .annotated⟩ := by
  have hrun : FreeRun .empty annotated.1 annotated.2 := Run.carryOn .nil (Option.some_get rfl).symm
  have hstore : annotated.2.annotations? (.record ⟨0, 0⟩ .self) = some _ := rfl
  exact ⟨_, hstore, (annotations_lawful.2.2 _ _ hrun _ _ hstore).1, rfl, rfl⟩

end Workspace

end ProcedureMapping
