import Mathlib.Data.List.Forall2
import ProcedureMapping.Proofs.Attributes

/-!
# Targets of writes

A write has a **target**, the attribute that it addresses.  What a record holds for an attribute is
its **entry**.  With the two, recording a write obeys the laws of a lens: it puts its own value and
the stronger source into the entry of its target, it leaves every other entry alone, and two writes
with different targets are recorded in either order.

Whether a write is accepted is told by the entry of its target, together with the owner and the
operation, which no write touches.

Main statements:

* `Procedure.entryAt?_record_target`, `Procedure.agreesExcept_record` — what recording a write does
  and what it leaves alone;
* `Procedure.accepts_congr` — the target tells whether a write is accepted;
* `Procedure.record_comm` — writes with different targets are recorded in either order.
-/

namespace ProcedureMapping

/-- What is recorded for an attribute: a tracked text, a tracked type mapping, an annotation if
there is one, or the source that has declared a parameter. -/
inductive Entry where
  | text (t : Tracked (Option String))
  | mapping (t : Tracked (Option TypeMapping))
  | note (entry : Option AnnotationEntry)
  | declared (s : Source)

/-! ## Stores under different names -/

namespace AnnotationStore

variable {store : AnnotationStore} {key key' : String} {value value' : Json.Value}
  {s s' : Source}

/-- What a write leaves under its name is told by what stood there, so the order does not matter. -/
theorem put_put_comm (h : key ≠ key') :
    (store.put key value s).put key' value' s' = (store.put key' value' s').put key value s := by
  refine ext_get? fun other => ?_
  simp only [get?_put, source?_put, h, h.symm, if_false]
  by_cases hother : other = key
  · simp [hother, h]
  · simp [hother]

theorem put_discard_comm (h : key ≠ key') :
    (store.put key value s).discard key' = (store.discard key').put key value s := by
  refine ext_get? fun other => ?_
  simp only [get?_put, get?_discard, source?_discard, h, if_false]
  by_cases hother : other = key
  · simp [hother, h]
  · simp [hother]

theorem discard_discard_comm (store : AnnotationStore) (key key' : String) :
    (store.discard key).discard key' = (store.discard key').discard key := by
  refine ext_get? fun other => ?_
  simp only [get?_discard]
  split <;> split <;> rfl

end AnnotationStore

/-! ## Parameters -/

namespace Parameter

/-- The attribute that a write addresses. -/
def Write.target : Write → Attribute
  | storeType _ => .storeType
  | typeMapping _ => .typeMapping
  | annotate key _ => .note key

/-- What a write leaves in its target, with the source that is recorded then. -/
def Write.leaves (s : Source) : Write → Entry
  | storeType value => .text ⟨value, some s⟩
  | typeMapping mapping => .mapping ⟨mapping, some s⟩
  | annotate _ value => .note (some ⟨value, s⟩)

/-- What is recorded for an attribute. -/
def entry (q : Parameter) : Attribute → Entry
  | .declaration => .declared q.source
  | .storeType => .text q.storeType
  | .typeMapping => .mapping q.typeMapping
  | .note key => .note (q.annotations.get? key)

variable {q q' : Parameter} {w w' : Write} {s s' : Source} {a : Attribute}

theorem entry_record_target (q : Parameter) (w : Write) (s : Source) :
    (q.record w s).entry w.target = w.leaves (s.max (q.recorded? w.target)) := by
  cases w with
  | annotate key value =>
      simp only [record, Write.target, entry, AnnotationStore.get?_put, if_true]
      rfl
  | _ => rfl

theorem entry_record_ne (h : a ≠ w.target) : (q.record w s).entry a = q.entry a := by
  cases w with
  | annotate key value =>
      cases a with
      | note other =>
          have hother : other ≠ key := fun heq => h (congrArg Attribute.note heq)
          simp only [record, entry, AnnotationStore.get?_put, if_neg hother]
      | _ => rfl
  | storeType value =>
      cases a with
      | storeType => exact absurd rfl h
      | _ => rfl
  | typeMapping mapping =>
      cases a with
      | typeMapping => exact absurd rfl h
      | _ => rfl

/-- The target tells whether a write is accepted. -/
theorem accepts_congr (h : q'.entry w.target = q.entry w.target) :
    q'.accepts w s = q.accepts w s := by
  cases w with
  | storeType value =>
      have hsame : q'.storeType = q.storeType := Entry.text.inj h
      rw [accepts, accepts, hsame]
  | typeMapping mapping =>
      have hsame : q'.typeMapping = q.typeMapping := Entry.mapping.inj h
      rw [accepts, accepts, hsame]
  | annotate key value =>
      have hsame : q'.annotations.get? key = q.annotations.get? key := Entry.note.inj h
      rw [accepts, accepts, AnnotationStore.accepts, AnnotationStore.accepts, hsame]

theorem record_comm (h : w.target ≠ w'.target) :
    (q.record w s).record w' s' = (q.record w' s').record w s := by
  cases w with
  | storeType value =>
      cases w' with
      | storeType value' => exact absurd rfl h
      | _ => rfl
  | typeMapping mapping =>
      cases w' with
      | typeMapping mapping' => exact absurd rfl h
      | _ => rfl
  | annotate key value =>
      cases w' with
      | annotate key' value' =>
          have hkey : key ≠ key' := fun heq => h (congrArg Attribute.note heq)
          simp only [record, AnnotationStore.put_put_comm hkey]
      | _ => rfl

end Parameter

/-! ## Procedures -/

namespace Procedure

/-- The attribute that a write addresses. -/
def Write.target : Write → Attribute
  | name _ => .name
  | schema _ => .schema
  | annotate key _ | unannotate key => .note key
  | parameter key w => .parameter key w.target

/-- What a write leaves in its target, with the source that is recorded then; a removal leaves no
annotation. -/
def Write.leaves (s : Source) : Write → Entry
  | name value | schema value => .text ⟨value, some s⟩
  | annotate _ value => .note (some ⟨value, s⟩)
  | unannotate _ => .note none
  | parameter _ w => w.leaves s

/-- What is recorded for an attribute; there is nothing for a parameter that is not declared. -/
def entryAt? (p : Procedure) : Attribute → Option Entry
  | .name => some (.text p.name)
  | .schema => some (.text p.schema)
  | .note key => some (.note (p.annotations.get? key))
  | .parameter key a => (p.findParameter? key).map (·.entry a)

/-- Whether two states of a procedure differ in one attribute at most.  The parameters are the same
ones, in the same order. -/
structure AgreesExcept (p p' : Procedure) (a : Attribute) : Prop where
  owner : p'.owner = p.owner
  operation : p'.operation = p.operation
  source : p'.source = p.source
  removed : p'.removed = p.removed
  signatureBound : p'.signatureBound = p.signatureBound
  entries : ∀ b, b ≠ a → p'.entryAt? b = p.entryAt? b
  parameters : List.Forall₂ (fun q q' => q'.name = q.name ∧
    ∀ b, .parameter q.name b ≠ a → q'.entry b = q.entry b) p.parameters p'.parameters

variable {settings : ModelSettings} {p p' : Procedure} {w w' : Write} {s s' : Source}
  {a : Attribute}

/-- **A write puts its own value and the stronger source into its target**, if there is one. -/
theorem entryAt?_record_target (p : Procedure) (w : Write) (s : Source) :
    (p.record w s).entryAt? w.target =
      (p.entryAt? w.target).map fun _ => w.leaves (s.max (p.recorded? w.target)) := by
  cases w with
  | annotate key value =>
      simp only [record, Write.target, entryAt?, AnnotationStore.get?_put, if_true]
      rfl
  | unannotate key =>
      simp only [record, Write.target, entryAt?, AnnotationStore.get?_discard, if_true]
      rfl
  | parameter key v =>
      simp only [Write.target, entryAt?, findParameter?_record, recorded?, if_true]
      cases p.findParameter? key with
      | none => rfl
      | some q => exact congrArg some (q.entry_record_target v s)
  | _ => rfl

/-- A write leaves every other attribute alone. -/
theorem entryAt?_record_ne (h : a ≠ w.target) : (p.record w s).entryAt? a = p.entryAt? a := by
  cases w with
  | name value =>
      cases a with
      | name => exact absurd rfl h
      | _ => rfl
  | schema value =>
      cases a with
      | schema => exact absurd rfl h
      | _ => rfl
  | annotate key value =>
      cases a with
      | note other =>
          have hother : other ≠ key := fun heq => h (congrArg Attribute.note heq)
          simp only [record, entryAt?, AnnotationStore.get?_put, if_neg hother]
      | _ => rfl
  | unannotate key =>
      cases a with
      | note other =>
          have hother : other ≠ key := fun heq => h (congrArg Attribute.note heq)
          simp only [record, entryAt?, AnnotationStore.get?_discard, if_neg hother]
      | _ => rfl
  | parameter key v =>
      cases a with
      | parameter other b =>
          simp only [entryAt?, findParameter?_record, Option.map_map]
          congr 1
          funext q
          by_cases hother : other = key
          · subst hother
            have hpart : b ≠ v.target := fun heq => h (congrArg (Attribute.parameter other) heq)
            simp only [Function.comp, if_true, Parameter.entry_record_ne hpart]
          · simp only [Function.comp, if_neg hother]
      | _ => rfl

/-- **A write changes its target and nothing else.** -/
theorem agreesExcept_record (p : Procedure) (w : Write) (s : Source) :
    p.AgreesExcept (p.record w s) w.target where
  owner := p.owner_apply (.write w s)
  operation := p.operation_apply (.write w s)
  source := p.source_record w s
  removed := p.removed_record w s
  signatureBound := by cases w <;> rfl
  entries _ hb := entryAt?_record_ne hb
  parameters := by
    cases w with
    | parameter key v =>
        simp only [record, modifyParameter, List.forall₂_map_right_iff, List.forall₂_same]
        intro q _
        by_cases hkey : q.name = key
        · rw [if_pos hkey]
          refine ⟨q.name_record v s, fun b hb => Parameter.entry_record_ne ?_⟩
          rintro rfl
          exact hb (congrArg (Attribute.parameter · v.target) hkey)
        · rw [if_neg hkey]
          exact ⟨rfl, fun _ _ => rfl⟩
    | _ => exact List.forall₂_same.2 fun _ _ => ⟨rfl, fun _ _ => rfl⟩

/-- **The target tells whether a write is accepted.** -/
theorem accepts_congr (howner : p'.owner = p.owner) (hop : p'.operation = p.operation)
    (h : p'.entryAt? w.target = p.entryAt? w.target) :
    p'.accepts settings w s = p.accepts settings w s := by
  cases w with
  | name value =>
      have hname : p'.name = p.name := Entry.text.inj (Option.some.inj h)
      simp only [accepts, acceptsName, effectiveName, defaultName, hname, howner, hop]
  | schema value =>
      have hschema : p'.schema = p.schema := Entry.text.inj (Option.some.inj h)
      simp only [accepts, acceptsSchema, effectiveSchema, hschema]
  | annotate key value =>
      have hnote : p'.annotations.get? key = p.annotations.get? key :=
        Entry.note.inj (Option.some.inj h)
      simp only [accepts, AnnotationStore.accepts, hnote]
  | unannotate key =>
      have hnote : p'.annotations.get? key = p.annotations.get? key :=
        Entry.note.inj (Option.some.inj h)
      simp only [accepts, AnnotationStore.releases, hnote]
  | parameter key v =>
      simp only [Write.target, entryAt?] at h
      simp only [accepts]
      cases hq : p.findParameter? key with
      | none =>
          rw [hq, Option.map_none, Option.map_eq_none_iff] at h
          rw [h]
      | some q =>
          rw [hq, Option.map_some, Option.map_eq_some_iff] at h
          obtain ⟨q', hq', hentry⟩ := h
          rw [hq']
          exact Parameter.accepts_congr hentry

theorem modifyParameter_comm {key key' : String} {f g : Parameter → Parameter}
    (hf : ∀ q, (f q).name = q.name) (hg : ∀ q, (g q).name = q.name)
    (h : key = key' → ∀ q, g (f q) = f (g q)) :
    (p.modifyParameter key f).modifyParameter key' g =
      (p.modifyParameter key' g).modifyParameter key f := by
  have hparameter : ∀ q : Parameter,
      (if (if q.name = key then f q else q).name = key' then g (if q.name = key then f q else q)
        else if q.name = key then f q else q) =
      if (if q.name = key' then g q else q).name = key then f (if q.name = key' then g q else q)
        else if q.name = key' then g q else q := by
    intro q
    by_cases hkey : q.name = key
    · by_cases hkey' : q.name = key'
      · rw [if_pos hkey, if_pos hkey', if_pos ((hf q).trans hkey'), if_pos ((hg q).trans hkey)]
        exact h (hkey.symm.trans hkey') q
      · have hf' : (f q).name ≠ key' := fun heq => hkey' ((hf q).symm.trans heq)
        rw [if_pos hkey, if_neg hkey', if_neg hf', if_pos hkey]
    · by_cases hkey' : q.name = key'
      · have hg' : (g q).name ≠ key := fun heq => hkey ((hg q).symm.trans heq)
        rw [if_neg hkey, if_pos hkey', if_neg hg']
      · rw [if_neg hkey, if_neg hkey', if_neg hkey]
  simp only [modifyParameter, List.map_map]
  congr 1
  exact List.map_congr_left fun q _ => hparameter q

/-- **Writes with different targets are recorded in either order.** -/
theorem record_comm (h : w.target ≠ w'.target) :
    (p.record w s).record w' s' = (p.record w' s').record w s := by
  have hkey : ∀ {key key' : String}, w.target = .note key → w'.target = .note key' →
      key ≠ key' := by
    rintro key _ hw hw' rfl
    exact h (hw.trans hw'.symm)
  cases w with
  | name value =>
      cases w' with
      | name value' => exact absurd rfl h
      | _ => rfl
  | schema value =>
      cases w' with
      | schema value' => exact absurd rfl h
      | _ => rfl
  | annotate key value =>
      cases w' with
      | annotate key' value' => simp only [record, AnnotationStore.put_put_comm (hkey rfl rfl)]
      | unannotate key' => simp only [record, AnnotationStore.put_discard_comm (hkey rfl rfl)]
      | _ => rfl
  | unannotate key =>
      cases w' with
      | annotate key' value' =>
          simp only [record, AnnotationStore.put_discard_comm (hkey rfl rfl).symm]
      | unannotate key' => simp only [record, p.annotations.discard_discard_comm key key']
      | _ => rfl
  | parameter key v =>
      cases w' with
      | parameter key' v' =>
          refine modifyParameter_comm (fun q => q.name_record v s) (fun q => q.name_record v' s') ?_
          rintro rfl q
          exact Parameter.record_comm fun heq => h (congrArg (Attribute.parameter key) heq)
      | _ => rfl

end Procedure

end ProcedureMapping
