import ProcedureMapping.Workspace

/-!
# Changes

However a call is worded, what it does to a model is one of a few **changes**.  A change carries
the source that makes it and is allowed only in some states; the explicit calls, the conventions
and the gateway differ only in the sources of the changes that they make.

Main statements:

* `Procedure.write_eq_ok_iff`, `Procedure.configure_change` — what a call on a procedure does;
* `Model.set_change`, `Model.removeConvention_change` — what a call on a registry does.
-/

namespace ProcedureMapping

/-! ## Chains of checks -/

theorem bind_eq_ok_iff {ε α β : Type} {x : Except ε α} {f : α → Except ε β} {b : β} :
    (x >>= f) = .ok b ↔ ∃ a, x = .ok a ∧ f a = .ok b := by
  cases x <;> simp [bind, Except.bind]

theorem bind_eq_error_iff {ε α β : Type} {x : Except ε α} {f : α → Except ε β} {e : ε} :
    (x >>= f) = .error e ↔ x = .error e ∨ ∃ a, x = .ok a ∧ f a = .error e := by
  cases x <;> simp [bind, Except.bind]

theorem map_eq_ok_iff {ε α β : Type} {x : Except ε α} {f : α → β} {b : β} :
    x.map f = .ok b ↔ ∃ a, x = .ok a ∧ f a = b := by
  cases x <;> simp [Except.map]

theorem map_eq_error_iff {ε α β : Type} {x : Except ε α} {f : α → β} {e : ε} :
    x.map f = .error e ↔ x = .error e := by
  cases x <;> simp [Except.map]

/-! ## Changes of a procedure -/

namespace Procedure

/-- A change of one procedure, with the source that makes it. -/
inductive Change where
  | write (w : Write) (s : Source)
  | bind (signature : Signature) (s : Source)
  | raise (s : Source)
  | detach

def apply (p : Procedure) : Change → Procedure
  | .write w s => p.record w s
  | .bind signature s => p.bound signature s
  | .raise s => p.raiseSource s
  | .detach => p.detach

/-- Which changes a procedure lets through. -/
def Allows (settings : ModelSettings) (p : Procedure) : Change → Prop
  | .write w s => p.can settings w s = true
  | .bind signature _ =>
      p.isWritable settings = true ∧ p.signatureBound = false ∧
        signature.firstDuplicate = none
  | .raise _ => p.isWritable settings = true
  | .detach => True

/-- The write that a statement asks for, if it asks for one. -/
def Statement.write? : Statement → Option Write
  | .name text => some (.name (some text))
  | .defaultName => some (.name none)
  | .schema text => some (.schema text)
  | .annotate key value => some (.annotate key value)
  | .unannotate key => some (.unannotate key)
  | .parameter key w => some (.parameter key w)
  | .signature _ | .select _ => none

variable {settings : ModelSettings} {p : Procedure}

theorem write_eq_ok_iff {w : Write} {s : Source} {r : Option Procedure} :
    p.write settings w s = .ok r ↔
      p.isWritable settings = true ∧ p.ensureDeclared settings w = .ok () ∧
        r = if p.accepts settings w s then some (p.record w s) else none := by
  simp only [write, bind_eq_ok_iff, ← ensureWritable_eq_ok_iff]
  grind

theorem write_eq_ok_some {w : Write} {s : Source} {q : Procedure}
    (h : p.write settings w s = .ok (some q)) :
    p.Allows settings (.write w s) ∧ q = p.apply (.write w s) := by
  obtain ⟨hopen, _, hq⟩ := write_eq_ok_iff.1 h
  by_cases hw : p.accepts settings w s = true
  · simp only [hw, if_true, Option.some.injEq] at hq
    exact ⟨by simp [Allows, can, hopen, hw], hq⟩
  · simp [hw] at hq

/-- A signature that is let through is the first one, and no name of it repeats. -/
theorem Allows.unbound {signature : Signature} {s : Source}
    (h : p.Allows settings (.bind signature s)) :
    p.signatureBound = false ∧ signature.parameters.Nodup :=
  ⟨h.2.1, Signature.firstDuplicate_eq_none_iff.1 h.2.2⟩

theorem bindSignature_eq_ok {signature : Signature} {s : Source} {q : Procedure}
    (h : p.bindSignature settings signature s = .ok q) :
    p.Allows settings (.bind signature s) ∧ q = p.apply (.bind signature s) := by
  simp only [bindSignature, bind_eq_ok_iff] at h
  obtain ⟨_, hopen, _, hunbound, _, hunique, hq⟩ := h
  have hfree : p.signatureBound = false := by
    unfold ensureUnbound at hunbound
    split at hunbound <;> simp_all
  refine ⟨⟨(ensureWritable_eq_ok_iff _ _).1 hopen, hfree, ?_⟩, (Except.ok.inj hq).symm⟩
  exact Signature.checkUnique_eq_ok_iff.1 hunique

theorem restamp_eq_ok {s : Source} {q : Procedure} (h : p.restamp settings s = .ok q) :
    p.Allows settings (.raise s) ∧ q = p.apply (.raise s) := by
  simp only [restamp, bind_eq_ok_iff] at h
  obtain ⟨_, hopen, hq⟩ := h
  exact ⟨(ensureWritable_eq_ok_iff _ _).1 hopen, (Except.ok.inj hq).symm⟩

/-- An explicit write that is let through at all takes effect. -/
theorem overwrite_eq_ok {w : Write} {q : Procedure} (h : p.overwrite settings w = .ok q) :
    p.Allows settings (.write w .explicit) ∧ q = p.apply (.write w .explicit) := by
  simp only [overwrite, bind_eq_ok_iff] at h
  obtain ⟨r, hr, hq⟩ := h
  obtain ⟨_, hdeclared, hr'⟩ := write_eq_ok_iff.1 hr
  have hw : p.accepts settings w .explicit = true := by
    apply accepts_explicit
    intro name v hv
    by_cases hfound : (p.findParameter? name).isSome = true
    · exact hfound
    · simp [ensureDeclared, hv, hfound] at hdeclared
  rw [if_pos hw] at hr'
  subst hr'
  obtain ⟨hallowed, hrecord⟩ := write_eq_ok_some hr
  exact ⟨hallowed, (Except.ok.inj hq).symm.trans hrecord⟩

/-- What an explicit statement does: its write, or a signature, or nothing. -/
theorem configure_change {statement : Statement} {q : Procedure}
    (h : p.configure settings statement = .ok q) :
    q = p ∨ (∃ w, statement.write? = some w ∧ p.Allows settings (.write w .explicit) ∧
        q = p.apply (.write w .explicit)) ∨
      ∃ signature, statement = .signature signature ∧
        p.Allows settings (.bind signature .explicit) ∧
        q = p.apply (.bind signature .explicit) := by
  cases statement with simp only [configure] at h
  | name value =>
      obtain ⟨_, _, hw⟩ := bind_eq_ok_iff.1 h
      exact .inr (.inl ⟨_, rfl, overwrite_eq_ok hw⟩)
  | schema value =>
      cases value with
      | none => exact .inr (.inl ⟨_, rfl, overwrite_eq_ok h⟩)
      | some value =>
          obtain ⟨_, _, hw⟩ := bind_eq_ok_iff.1 h
          exact .inr (.inl ⟨_, rfl, overwrite_eq_ok hw⟩)
  | signature signature => exact .inr (.inr ⟨signature, rfl, bindSignature_eq_ok h⟩)
  | select name =>
      obtain ⟨_, _, hq⟩ := map_eq_ok_iff.1 h
      exact .inl hq.symm
  | _ => exact .inr (.inl ⟨_, rfl, overwrite_eq_ok h⟩)

end Procedure

/-! ## Changes of a model -/

namespace Model

/-- A change of one model.  A removal carries the source that asks for it; user code removes at
the explicit source, which no record can withstand. -/
inductive Change where
  | type (name : String) (base : Option TypeId)
  | annotations (i : TypeId) (entry : EntityType) (annotations : AnnotationStore)
  | defaultSchema (schema : Option String) (s : Source)
  | finalize
  | registry
  | create (r : RegistryId) (owner : EntityRef) (op : Operation) (s : Source)
  | vacate (r : RegistryId) (owner : EntityRef) (op : Operation) (s : Source)
  | procedure (i : ProcedureId) (change : Procedure.Change)
  /-- A procedure outside every registry. -/
  | stray (owner : EntityRef) (op : Operation) (s : Source)

def apply (m : Model) : Change → Model
  | .type name base => { m with types := m.types ++ [⟨name, base, .empty⟩] }
  | .annotations i entry annotations => m.setAnnotations i entry annotations
  | .defaultSchema schema s =>
      { m with settings :=
          { m.settings with defaultSchema := m.settings.defaultSchema.set schema s } }
  | .finalize => m.finalize
  | .registry => m.addRegistry.2
  | .create r owner op s => (m.create r owner op s).2
  | .vacate r owner op _ => (m.vacate r owner op).2
  | .procedure i change => { m with procedures := m.procedures.modify i (·.apply change) }
  | .stray owner op s => (m.addProcedure (.fresh owner op s)).2

/-- Which changes a model lets through. -/
def Allows (m : Model) : Change → Prop
  | .type name base =>
      m.settings.readOnly = false ∧ Text.isBlank name = false ∧
        m.settings.config.validateIdentifier name = .ok () ∧ name ∉ m.typeNames ∧
        m.types.length < UInt32.size ∧ ∀ b, base = some b → b < m.types.length
  | .annotations i entry _ => m.settings.readOnly = false ∧ m.types[i]? = some entry
  | .defaultSchema schema s =>
      m.settings.readOnly = false ∧ m.settings.defaultSchema.accepts schema s = true
  | .finalize | .registry | .stray .. => True
  | .create r owner op _ =>
      owner.model = m.id ∧ m.settings.readOnly = false ∧
        (m.registry r).get? ⟨owner.id, op⟩ = none
  | .vacate r owner op s =>
      owner.model = m.id ∧ m.settings.readOnly = false ∧
        ∀ i p, (m.registry r).get? ⟨owner.id, op⟩ = some i → m.procedures[i]? = some p →
          s.overrides (some p.source) = true
  | .procedure i change =>
      ∃ p, m.procedures[i]? = some p ∧ p.Allows m.settings change

/-- What a call does to a model: an allowed change that fits the call, or nothing. -/
def Changes (m m' : Model) (fits : Change → Prop) : Prop :=
  m' = m ∨ ∃ e, fits e ∧ m.Allows e ∧ m' = m.apply e

variable {m m' : Model}

theorem Allows.procedure {i : ProcedureId} {p : Procedure} {change : Procedure.Change}
    (h : m.Allows (.procedure i change)) (hp : m.procedures[i]? = some p) :
    p.Allows m.settings change := by
  obtain ⟨q, hq, hallows⟩ := h
  obtain rfl : q = p := Option.some.inj (hq.symm.trans hp)
  exact hallows

theorem setProcedure_self {i : ProcedureId} {p : Procedure} (h : m.procedures[i]? = some p) :
    m.setProcedure i p = m := by
  obtain ⟨hi, rfl⟩ := List.getElem?_eq_some_iff.1 h
  simp [setProcedure]

theorem setProcedure_apply {i : ProcedureId} {p : Procedure} (h : m.procedures[i]? = some p)
    (change : Procedure.Change) :
    m.setProcedure i (p.apply change) = m.apply (.procedure i change) := by
  have hlist : m.procedures.set i (p.apply change) =
      m.procedures.modify i (·.apply change) := by
    apply List.ext_getElem?
    intro j
    rw [List.getElem?_set, List.getElem?_modify]
    by_cases hij : i = j
    · subst hij
      obtain ⟨hi, rfl⟩ := List.getElem?_eq_some_iff.1 h
      simp [hi]
    · simp [hij]
  rw [setProcedure, apply, hlist]

theorem baseId_eq_ok {base : Option EntityRef} {b : Option TypeId}
    (h : m.baseId base = .ok b) {i : TypeId} (hi : b = some i) : i < m.types.length := by
  subst hi
  cases base with
  | none => simp [baseId] at h
  | some base =>
      by_cases hcontains : m.contains base = true
      · have hid : base.id = i := by simpa [baseId, hcontains] using h
        subst hid
        unfold contains entry? at hcontains
        split at hcontains
        · simpa using hcontains
        · cases hcontains
      · simp [baseId, hcontains] at h

theorem addType_change {name : String} {base : Option EntityRef} {t : EntityRef}
    (h : m.addType name base = .ok (t, m')) :
    m.Changes m' fun e => ∃ b, e = .type name b := by
  obtain ⟨_, b, hb, hm⟩ := addType_eq_ok h
  refine .inr ⟨.type name b, ⟨b, rfl⟩, ?_, hm⟩
  simp only [addType, bind_eq_ok_iff] at h
  obtain ⟨_, hopen, _, hnamed, _, hshort, _, hfresh, _, _, _, hid, -⟩ := h
  refine ⟨ModelSettings.ensureWritable_eq_ok_iff.1 hopen, ?_, hshort, ?_,
    (nextId_eq_ok_iff.1 hid).2, fun i hi => baseId_eq_ok hb hi⟩
  · unfold ensureNamed at hnamed
    split at hnamed <;> simp_all
  · unfold ensureFresh at hfresh
    split at hfresh <;> simp_all [typeNames]

theorem requireEntry_eq_ok {t : EntityRef} {entry : EntityType}
    (h : m.requireEntry t = .ok entry) :
    m.settings.readOnly = false ∧ m.types[t.id]? = some entry := by
  simp only [requireEntry, bind_eq_ok_iff] at h
  obtain ⟨_, hopen, hfound⟩ := h
  refine ⟨ModelSettings.ensureWritable_eq_ok_iff.1 hopen, ?_⟩
  unfold entry? at hfound
  split at hfound
  · next found hfound' =>
      cases hfound
      split at hfound'
      · exact hfound'
      · cases hfound'
  · cases hfound

theorem annotate_change {t : EntityRef} {name : String} {value : Json.Value} {s : Source}
    {b : Bool} (h : m.annotate t name value s = .ok (b, m')) :
    m.Changes m' fun e => ∃ i entry annotations, e = .annotations i entry annotations := by
  simp only [annotate, bind_eq_ok_iff] at h
  obtain ⟨entry, hentry, hm⟩ := h
  obtain ⟨hopen, htype⟩ := requireEntry_eq_ok hentry
  split at hm
  · next annotations _ =>
      cases hm
      exact .inr ⟨_, ⟨t.id, entry, annotations, rfl⟩, ⟨hopen, htype⟩, rfl⟩
  · cases hm
    exact .inl rfl

theorem unannotate_change {t : EntityRef} {name : String} {s : Source} {b : Bool}
    (h : m.unannotate t name s = .ok (b, m')) :
    m.Changes m' fun e => ∃ i entry annotations, e = .annotations i entry annotations := by
  simp only [unannotate, bind_eq_ok_iff] at h
  obtain ⟨entry, hentry, hm⟩ := h
  obtain ⟨hopen, htype⟩ := requireEntry_eq_ok hentry
  split at hm
  · cases hm
    exact .inr ⟨_, ⟨t.id, entry, _, rfl⟩, ⟨hopen, htype⟩, rfl⟩
  · cases hm
    exact .inl rfl

/-- A change of the default schema that is answered with `true` is recorded; one that is
answered with `false` is not. -/
theorem setDefaultSchema_eq_ok {schema : Option String} {s : Source} {b : Bool}
    (h : m.setDefaultSchema schema s = .ok (b, m')) :
    (b = true ∧ m.Allows (.defaultSchema schema s) ∧ m' = m.apply (.defaultSchema schema s)) ∨
      b = false ∧ m.settings.defaultSchema.accepts schema s = false ∧ m' = m := by
  simp only [setDefaultSchema, bind_eq_ok_iff] at h
  obtain ⟨_, hopen, hm⟩ := h
  by_cases haccepts : m.settings.defaultSchema.accepts schema s = true
  · simp only [Tracked.write?, haccepts, if_true] at hm
    cases hm
    exact .inl ⟨rfl, ⟨ModelSettings.ensureWritable_eq_ok_iff.1 hopen, haccepts⟩, rfl⟩
  · simp only [Tracked.write?, haccepts] at hm
    cases hm
    exact .inr ⟨rfl, Bool.eq_false_iff.2 haccepts, rfl⟩

theorem setDefaultSchema_change {schema : Option String} {s : Source} {b : Bool}
    (h : m.setDefaultSchema schema s = .ok (b, m')) :
    m.Changes m' fun e => e = .defaultSchema schema s := by
  obtain ⟨_, hallowed, rfl⟩ | ⟨_, _, rfl⟩ := setDefaultSchema_eq_ok h
  · exact .inr ⟨_, rfl, hallowed, rfl⟩
  · exact .inl rfl

/-! ### Registries -/

theorem ensureRegistrable_eq_ok {owner : EntityRef} {op : Operation}
    (h : m.ensureRegistrable owner op = .ok ()) :
    owner.model = m.id ∧ m.settings.readOnly = false := by
  unfold ensureRegistrable at h
  split at h
  · next howner => exact ⟨howner, ModelSettings.ensureWritable_eq_ok_iff.1 h⟩
  · cases h

theorem declared?_eq_get? {r : RegistryId} {owner : EntityRef} {op : Operation}
    (h : owner.model = m.id) :
    m.declared? r owner op = (m.registry r).get? ⟨owner.id, op⟩ := by
  simp [declared?, h]

theorem lookup?_eq_none {r : RegistryId} {h : Model} {owner : EntityRef} {op : Operation}
    (howner : owner.model = m.id) (hnone : m.lookup? r h owner op = none) :
    (m.registry r).get? ⟨owner.id, op⟩ = none := by
  simp only [lookup?, howner, if_true] at hnone
  split at hnone
  · cases hnone
  · assumption

/-- The source of a procedure that a registry found is raised, and one that it did not find is
made. -/
theorem reuseOrCreate_change {r : RegistryId} {found : Option ProcedureId} {owner : EntityRef}
    {op : Operation} {s : Source} {i : ProcedureId}
    (howner : owner.model = m.id) (hopen : m.settings.readOnly = false)
    (hslot : found = none → (m.registry r).get? ⟨owner.id, op⟩ = none)
    (h : m.reuseOrCreate r found owner op s = .ok (i, m')) :
    m.Changes m' fun e => (∃ i, e = .procedure i (.raise s)) ∨ e = .create r owner op s := by
  cases found with
  | none =>
      have hm : m.create r owner op s = (i, m') := by simpa [reuseOrCreate] using h
      refine .inr ⟨.create r owner op s, .inr rfl, ⟨howner, hopen, hslot rfl⟩, ?_⟩
      rw [apply, hm]
  | some j =>
      obtain ⟨n, hn, heq⟩ := map_eq_ok_iff.1 h
      cases heq
      unfold restamp at hn
      split at hn
      · next p hp =>
          obtain ⟨q, hq, hset⟩ := map_eq_ok_iff.1 hn
          obtain ⟨hallowed, rfl⟩ := Procedure.restamp_eq_ok hq
          refine .inr ⟨.procedure i (.raise s), .inl ⟨i, rfl⟩, ⟨p, hp, hallowed⟩, ?_⟩
          rw [← hset, setProcedure_apply hp]
      · cases hn
        exact .inl rfl

theorem set_change {r : RegistryId} {owner : EntityRef} {op : Operation} {i : ProcedureId}
    (h : m.set r owner op = .ok (i, m')) :
    m.Changes m' fun e =>
      (∃ i, e = .procedure i (.raise .explicit)) ∨ e = .create r owner op .explicit := by
  simp only [set, bind_eq_ok_iff] at h
  obtain ⟨_, hcheck, hreuse⟩ := h
  obtain ⟨howner, hopen⟩ := ensureRegistrable_eq_ok hcheck
  rw [declared?_eq_get? howner] at hreuse
  exact reuseOrCreate_change howner hopen (fun hnone => hnone) hreuse

theorem setConvention_change {r : RegistryId} {h : Model} {owner : EntityRef}
    {op : Operation} {s : Source} {i : ProcedureId}
    (hset : m.setConvention r h owner op s = .ok (i, m')) :
    m.Changes m' fun e =>
      (∃ i, e = .procedure i (.raise s)) ∨ e = .create r owner op s := by
  simp only [setConvention, bind_eq_ok_iff] at hset
  obtain ⟨_, hcheck, hreuse⟩ := hset
  obtain ⟨howner, hopen⟩ := ensureRegistrable_eq_ok hcheck
  exact reuseOrCreate_change howner hopen (lookup?_eq_none howner) hreuse

theorem remove_change {r : RegistryId} {owner : EntityRef} {op : Operation}
    {found : Option ProcedureId} (h : m.remove r owner op = .ok (found, m')) :
    m.Changes m' fun e => e = .vacate r owner op .explicit := by
  simp only [remove, bind_eq_ok_iff] at h
  obtain ⟨_, hcheck, hm⟩ := h
  obtain ⟨howner, hopen⟩ := ensureRegistrable_eq_ok hcheck
  refine .inr ⟨_, rfl, ⟨howner, hopen, fun _ _ _ _ => ?_⟩, ?_⟩
  · exact Procedure.overrides_explicit _
  · rw [apply, Except.ok.inj hm]

theorem removeConvention_change {r : RegistryId} {owner : EntityRef} {op : Operation}
    {s : Source} {found : Option ProcedureId}
    (h : m.removeConvention r owner op s = .ok (found, m')) :
    m.Changes m' fun e => e = .vacate r owner op s := by
  simp only [removeConvention, bind_eq_ok_iff] at h
  obtain ⟨_, hcheck, hm⟩ := h
  obtain ⟨howner, hopen⟩ := ensureRegistrable_eq_ok hcheck
  split at hm
  · cases hm
    exact .inl rfl
  · next recorded hrecorded =>
      by_cases hover : s.overrides (some recorded) = true
      · rw [if_pos hover] at hm
        refine .inr ⟨_, rfl, ⟨howner, hopen, fun i p hi hp => ?_⟩, ?_⟩
        · simp only [declaredSource?, declared?_eq_get? howner, hi, Option.bind_some, hp,
            Option.map_some, Option.some.injEq] at hrecorded
          rw [hrecorded]
          exact hover
        · rw [apply, Except.ok.inj hm]
      · rw [if_neg hover] at hm
        cases hm
        exact .inl rfl

end Model

end ProcedureMapping
