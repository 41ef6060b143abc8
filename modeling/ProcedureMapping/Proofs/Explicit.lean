import ProcedureMapping.Proofs.Attributes
import ProcedureMapping.Proofs.Statements

/-!
# Explicit statements win

A statement that is not refused takes effect, whatever has been configured before and by whom: its
value is what applies afterwards, and it is recorded as explicit.  A statement that is refused
changes nothing.

Main statements:

* `Procedure.obey_takesEffect` — what is carried out takes effect;
* `explicit_wins` — what becomes of a statement in a workspace.
-/

namespace ProcedureMapping

/-! ## What a statement does -/

/-- Whether a write to a parameter has taken effect, at the explicit source, from `q` to `q'`. -/
def Parameter.TakesEffect (q q' : Parameter) : Write → Prop
  | .storeType (some text) =>
      q'.effectiveStoreType = some text ∧ q'.recorded? .storeType = some .explicit
  | .storeType none =>
      q'.effectiveStoreType = q.typeMapping.value.map TypeMapping.storeType ∧
        q'.recorded? .storeType = some .explicit
  | .typeMapping mapping =>
      q'.typeMapping.value = mapping ∧ q'.recorded? .typeMapping = some .explicit
  | .annotate key value => q'.annotations.get? key = some ⟨value, .explicit⟩

theorem AnnotationStore.get?_put_explicit (store : AnnotationStore) (key : String)
    (value : Json.Value) : (store.put key value .explicit).get? key = some ⟨value, .explicit⟩ := by
  rw [get?_put, if_pos rfl, Source.max_of_overrides (Procedure.overrides_explicit _)]

theorem Tracked.source_set_explicit {α : Type} (t : Tracked α) (a : α) :
    (t.set a .explicit).source = some .explicit := by
  rw [set_source, Source.max_of_overrides (Procedure.overrides_explicit _)]

theorem Parameter.record_takesEffect (q : Parameter) (w : Write) :
    q.TakesEffect (q.record w .explicit) w := by
  cases w with
  | storeType text =>
      cases text with
      | none => exact ⟨rfl, q.storeType.source_set_explicit none⟩
      | some text => exact ⟨rfl, q.storeType.source_set_explicit (some text)⟩
  | typeMapping mapping => exact ⟨rfl, q.typeMapping.source_set_explicit mapping⟩
  | annotate key value => exact q.annotations.get?_put_explicit key value

namespace Procedure

/-- Whether a statement has taken effect, at the explicit source, from `p` to `q`: a name or a
schema is the one that applies, or the default applies where it was cleared. -/
def TakesEffect (settings : ModelSettings) (p q : Procedure) : Statement → Prop
  | .name text => q.effectiveName settings = text ∧ q.recorded? .name = some .explicit
  | .defaultName =>
      q.effectiveName settings = p.defaultName settings ∧ q.recorded? .name = some .explicit
  | .schema (some text) =>
      q.effectiveSchema settings = some text ∧ q.recorded? .schema = some .explicit
  | .schema none =>
      q.effectiveSchema settings = settings.defaultSchema.value ∧
        q.recorded? .schema = some .explicit
  | .signature signature =>
      q.parameters = signature.parameters.map (Parameter.declared · .explicit)
  | .annotate key value => q.annotations.get? key = some ⟨value, .explicit⟩
  | .unannotate key => q.annotations.get? key = none
  | .parameter key w => ∃ r r', p.findParameter? key = some r ∧
      q.findParameter? key = some r' ∧ r.TakesEffect r' w
  | .select key => q = p ∧ (p.findParameter? key).isSome = true

variable {settings : ModelSettings} {p : Procedure} {statement : Statement}

theorem objection?_of_refusal? (h : p.refusal? settings statement = none) :
    p.objection? settings statement = none := by
  unfold refusal? at h
  split at h
  · cases h
  · split at h
    · cases h
    · exact h

/-- A statement about a parameter without an objection is about one that is declared. -/
theorem exists_parameter {key : String} (h : p.undeclared? settings key = none) :
    ∃ r, p.findParameter? key = some r := by
  unfold undeclared? at h
  split at h
  · next hfound => exact Option.isSome_iff_exists.1 hfound
  · cases h

/-- A signature without an objection is the first one, and no name of it repeats. -/
theorem free_of_objection? {signature : Signature}
    (h : p.objection? settings (.signature signature) = none) :
    p.signatureBound = false ∧ signature.parameters.Nodup := by
  rw [objection?] at h
  split at h
  · cases h
  · next hfree =>
      refine ⟨Bool.eq_false_iff.2 hfree, ?_⟩
      exact Signature.firstDuplicate_eq_none_iff.1 (Option.map_eq_none_iff.1 h)

/-- **What is carried out takes effect**, whatever was configured before. -/
theorem obey_takesEffect (h : p.refusal? settings statement = none) :
    TakesEffect settings p (p.obey statement) statement := by
  have hobjection := objection?_of_refusal? h
  cases statement with
  | name text => exact ⟨rfl, p.name.source_set_explicit (some text)⟩
  | defaultName => exact ⟨rfl, p.name.source_set_explicit none⟩
  | schema target =>
      cases target with
      | none => exact ⟨rfl, p.schema.source_set_explicit none⟩
      | some text => exact ⟨rfl, p.schema.source_set_explicit (some text)⟩
  | signature signature =>
      obtain ⟨hfree, hunique⟩ := free_of_objection? hobjection
      exact parameters_bound hfree hunique .explicit
  | annotate key value => exact p.annotations.get?_put_explicit key value
  | unannotate key =>
      have hgone := p.annotations.get?_discard key key
      rw [if_pos rfl] at hgone
      exact hgone
  | parameter key w =>
      obtain ⟨r, hr⟩ := exists_parameter hobjection
      refine ⟨r, r.record w .explicit, hr, ?_, r.record_takesEffect w⟩
      rw [obey, findParameter?_record, hr, Option.map_some, if_pos rfl]
  | select key =>
      obtain ⟨r, hr⟩ := exists_parameter hobjection
      exact ⟨rfl, by rw [hr]; rfl⟩

end Procedure

/-! ## Calls -/

namespace Workspace

variable {w : Workspace} {ref : ProcedureRef} {m : Model} {p : Procedure}

/-- **Explicit statements win.**  A statement about a procedure is refused, and then it changes
nothing, or it is carried out, and then it takes effect. -/
theorem explicit_wins (hp : w.procedure? ref = some (m, p)) (statement : Procedure.Statement) :
    match p.refusal? m.settings statement with
    | some x => w.execute (.configure ref statement) = some (w, .error x)
    | none => ∃ w' m', w.execute (.configure ref statement) = some (w', .ok .done) ∧
        w'.procedure? ref = some (m', p.obey statement) ∧ m'.settings = m.settings ∧
        p.TakesEffect m'.settings (p.obey statement) statement := by
  have hconfigure := p.configure_eq m.settings statement
  cases hrefusal : p.refusal? m.settings statement with
  | some x =>
      rw [hrefusal] at hconfigure
      simp only [execute]
      exact changeProcedure_error hp hconfigure
  | none =>
      rw [hrefusal] at hconfigure
      refine ⟨w.setModel ref.model (m.setProcedure ref.id (p.obey statement)),
        m.setProcedure ref.id (p.obey statement), ?_, procedure?_setProcedure hp _, rfl,
        Procedure.obey_takesEffect hrefusal⟩
      simp only [execute]
      exact changeProcedure_of_ok hp hconfigure

/-- A procedure that a convention has named, for an attribute of its type. -/
def named : Workspace :=
  ((carryOn (fun _ _ => True) [] .empty
    [.createModel .standard, .addType 0 "Blog" none, .createRegistry 0,
      .setConvention ⟨0, 0⟩ 0 ⟨0, 0, "Blog"⟩ .insert true,
      .suggest ⟨0, 0⟩ (.name (some "Blog_Add")) true]).get rfl).2

/-- Even a blank name wins. -/
theorem explicit_wins_named : ∃ m p w' m', named.procedure? ⟨0, 0⟩ = some (m, p) ∧
    p.effectiveName m.settings = "Blog_Add" ∧
    named.execute (.configure ⟨0, 0⟩ (.name " ")) = some (w', .ok .done) ∧
    w'.procedure? ⟨0, 0⟩ = some (m', p.obey (.name " ")) ∧
    (p.obey (.name " ")).effectiveName m'.settings = " " := by
  have hp : named.procedure? ⟨0, 0⟩ = some (_, _) := rfl
  obtain ⟨w', m', hdoes, hp', _, heffect⟩ := explicit_wins hp (.name " ")
  exact ⟨_, _, w', m', hp, rfl, hdoes, hp', heffect.1⟩

end Workspace

end ProcedureMapping
