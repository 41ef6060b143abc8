import Mathlib.Data.List.Nodup
import ProcedureMapping.Proofs.Independence

/-!
# Bound signatures

The parameters of a procedure come from one signature.  Three kinds of calls bind one: an explicit
statement, a convention and the gateway; the first of them that succeeds is the only one.  From then
on the procedure **lists** the names of that signature in their order, whatever is written to the
parameters, and whether or not the procedure is removed or its model is finalized.

A binding that fails leaves no trace, so it does not stand in the way of a later one.  And as no
parameter ever goes, a builder for a parameter keeps finding it.

Main statements:

* `Procedure.declarations_apply`, `step_bound` — what a change and what a step does to the
  parameters;
* `Run.signed` — what a run leaves of them;
* `parameters_from_signature` — the parameters, bindings and builders of a procedure at any moment.
-/

namespace ProcedureMapping

/-! ## Bindings -/

/-- The signature that a command binds to a procedure, and the source that it is bound at. -/
def Command.binding? (ref : ProcedureRef) : Command → Option (Signature × Source)
  | configure p (.signature signature) => if p = ref then some (signature, .explicit) else none
  | suggestSignature p signature da =>
      if p = ref then some (signature, .ofConvention da) else none
  | bindSignature p signature s => if p = ref then some (signature, s) else none
  | _ => none

theorem Command.Makes.binding {c : Command} {ref : ProcedureRef} {signature : Signature}
    {s : Source} (h : c.Makes ref.model (.procedure ref.id (.bind signature s))) :
    c.binding? ref = some (signature, s) := by
  obtain ⟨i, j⟩ := ref
  cases h <;> exact if_pos rfl

/-- The binding of a step, unless it was refused. -/
def Step.binding? (ref : ProcedureRef) (s : Step) : Option (Signature × Source) :=
  match s.answer with
  | .ok _ => s.command.binding? ref
  | .error _ => none

/-- The first binding that has succeeded. -/
def boundBy? (ref : ProcedureRef) (steps : List Step) : Option (Signature × Source) :=
  steps.findSome? (Step.binding? ref)

theorem boundBy?_append (ref : ProcedureRef) (steps : List Step) (s : Step) :
    boundBy? ref (steps ++ [s]) = (boundBy? ref steps).or (s.binding? ref) := by
  simp [boundBy?, List.findSome?_append]

theorem boundBy?_append_of_some {ref : ProcedureRef} {steps : List Step}
    {binding : Signature × Source} (h : boundBy? ref steps = some binding) (more : List Step) :
    boundBy? ref (steps ++ more) = some binding := by
  rw [boundBy?] at h
  rw [boundBy?, List.findSome?_append, h, Option.some_or]

/-- The names and the declaring sources of the parameters that a binding brings. -/
def declaredBy : Option (Signature × Source) → List (String × Source)
  | none => []
  | some (signature, s) => signature.parameters.map fun name => (name, s)

/-! ## Declarations -/

namespace Procedure

/-- The names and the declaring sources of the parameters. -/
def declarations (p : Procedure) : List (String × Source) :=
  p.parameters.map fun q => (q.name, q.source)

/-- What an earlier binding has left of a procedure. -/
structure Signed (p : Procedure) (binding : Option (Signature × Source)) : Prop where
  bound : p.signatureBound = binding.isSome
  declarations : p.declarations = declaredBy binding
  nodup : (p.parameters.map Parameter.name).Nodup

/-- Whether the parameters of a procedure are those of a signature that was bound at `s`. -/
structure Lists (p : Procedure) (signature : Signature) (s : Source) : Prop where
  names : p.parameters.map Parameter.name = signature.parameters
  found : ∀ q ∈ p.parameters, p.findParameter? q.name = some q
  source : ∀ q ∈ p.parameters, q.source = s

variable {p p' : Procedure} {signature : Signature} {s : Source} {q : Parameter}

theorem map_fst_declarations (p : Procedure) :
    p.declarations.map Prod.fst = p.parameters.map Parameter.name := by
  simp [declarations]

theorem declarations_record (p : Procedure) (w : Write) (s : Source) :
    (p.record w s).declarations = p.declarations := by
  cases w with
  | parameter key v =>
      simp only [declarations, record, modifyParameter, List.map_map]
      refine List.map_congr_left fun q _ => ?_
      by_cases hkey : q.name = key <;> simp [hkey]
  | _ => rfl

theorem declarations_bound (hfree : p.signatureBound = false)
    (hunique : signature.parameters.Nodup) :
    (p.bound signature s).declarations = declaredBy (some (signature, s)) := by
  rw [declarations, parameters_bound hfree hunique, List.map_map]
  rfl

/-- **Only a binding declares parameters.** -/
theorem declarations_apply (p : Procedure) (change : Change) :
    (p.apply change).declarations = p.declarations ∧
        (p.apply change).signatureBound = p.signatureBound ∨
      ∃ signature s, change = .bind signature s := by
  rcases change with ⟨w, s⟩ | ⟨signature, s⟩ | _ | _
  · exact .inl ⟨p.declarations_record w s, by cases w <;> rfl⟩
  · exact .inr ⟨signature, s, rfl⟩
  · exact .inl ⟨rfl, rfl⟩
  · exact .inl ⟨rfl, rfl⟩

theorem Signed.congr {binding : Option (Signature × Source)} (h : p.Signed binding)
    (hdeclarations : p'.declarations = p.declarations)
    (hbound : p'.signatureBound = p.signatureBound) : p'.Signed binding where
  bound := hbound.trans h.bound
  declarations := hdeclarations.trans h.declarations
  nodup := by
    rw [← map_fst_declarations, hdeclarations, map_fst_declarations]
    exact h.nodup

theorem signed_bound (hfree : p.signatureBound = false) (hunique : signature.parameters.Nodup) :
    (p.bound signature s).Signed (some (signature, s)) where
  bound := rfl
  declarations := declarations_bound hfree hunique
  nodup := by
    rw [parameters_bound hfree hunique, List.map_map]
    simpa [Function.comp_def, Parameter.declared] using hunique

/-- Where no name repeats, every parameter is found under its own. -/
theorem findParameter?_of_nodup (h : (p.parameters.map Parameter.name).Nodup)
    (hq : q ∈ p.parameters) : p.findParameter? q.name = some q := by
  have hthere : (p.findParameter? q.name).isSome = true := by
    rw [findParameter?, List.find?_isSome]
    exact ⟨q, hq, by simp⟩
  obtain ⟨q', hq'⟩ := Option.isSome_iff_exists.1 hthere
  obtain ⟨hmem, hname⟩ := findParameter?_eq_some hq'
  rw [hq', List.inj_on_of_nodup_map h hmem hq hname]

theorem Signed.lists (h : p.Signed (some (signature, s))) : p.Lists signature s where
  names := by
    rw [← map_fst_declarations, h.declarations]
    simp [declaredBy, Function.comp_def]
  found _ hq := findParameter?_of_nodup h.nodup hq
  source := by
    intro q hq
    have hmem : (q.name, q.source) ∈ declaredBy (some (signature, s)) := by
      rw [← h.declarations]
      exact List.mem_map_of_mem hq
    obtain ⟨name, _, heq⟩ := List.mem_map.1 hmem
    exact (Prod.mk.inj heq).2.symm

theorem Signed.parameters_eq_nil (h : p.Signed none) : p.parameters = [] :=
  List.map_eq_nil_iff.1 h.declarations

end Procedure

namespace Workspace

variable {w w' : Workspace} {c : Command} {a : Except Error Outcome} {ref : ProcedureRef}
  {m m' : Model} {p p' : Procedure} {steps more : List Step} {signature : Signature} {s : Source}

/-! ## Steps -/

/-- A binding does the same, whoever makes it. -/
theorem execute_binding (h : c.binding? ref = some (signature, s)) :
    w.execute c = w.changeProcedure ref fun settings p =>
      (p.bindSignature settings signature s).map fun p => (.done, p) := by
  cases c with simp only [Command.binding?, reduceCtorEq, Option.ite_none_right_eq_some] at h
  | configure r statement =>
      cases statement with
      | signature =>
          obtain ⟨rfl, heq⟩ := Option.ite_none_right_eq_some.1 h
          cases heq
          rfl
      | _ => cases h
  | suggestSignature | bindSignature =>
      obtain ⟨rfl, heq⟩ := h
      cases heq
      rfl

theorem step_bound (hsingle : c.isSingle = true) (does : w.execute c = some (w', a))
    (hp' : w'.procedure? ref = some (m', p')) :
    match Step.binding? ref ⟨c, a⟩ with
    | none => (∃ m p, w.procedure? ref = some (m, p) ∧ p'.declarations = p.declarations ∧
          p'.signatureBound = p.signatureBound) ∨
        w.procedure? ref = none ∧ p'.Signed none
    | some (signature, s) => ∃ m p, w.procedure? ref = some (m, p) ∧ p.signatureBound = false ∧
        signature.parameters.Nodup ∧ p' = p.bound signature s := by
  cases a with
  | error x =>
      obtain rfl := execute_error hsingle does
      exact .inl ⟨m', p', hp', rfl, rfl⟩
  | ok o =>
      have hstep : Step.binding? ref ⟨c, .ok o⟩ = c.binding? ref := rfl
      rw [hstep]
      cases hbinding : c.binding? ref with
      | none =>
          rcases (execute_effect hsingle does).procedure_before hp' with
            ⟨m, p, hp, ⟨_, rfl⟩ | ⟨e, hmakes, _, _, rfl | ⟨change, hacts, rfl⟩⟩⟩ |
              ⟨hnone, _, owner, op, s, rfl, _⟩
          · exact .inl ⟨m, p', hp, rfl, rfl⟩
          · exact .inl ⟨m, p', hp, rfl, rfl⟩
          · refine .inl ⟨m, p, hp, ?_⟩
            rcases p.declarations_apply change with hkept | ⟨signature, s, rfl⟩
            · exact hkept
            · cases hacts
              rw [hmakes.binding] at hbinding
              cases hbinding
          · exact .inr ⟨hnone, rfl, rfl, .nil⟩
      | some binding =>
          obtain ⟨signature, s⟩ := binding
          rw [execute_binding hbinding] at does
          obtain ⟨m, p, q, hp, hchange, rfl⟩ := changeProcedure_ok does
          obtain ⟨q', hq', heq⟩ := map_eq_ok_iff.1 hchange
          cases heq
          obtain ⟨hallowed, rfl⟩ := Procedure.bindSignature_eq_ok hq'
          obtain ⟨hfree, hunique⟩ := hallowed.unbound
          rw [procedure?_setProcedure hp] at hp'
          cases hp'
          exact ⟨m, p, hp, hfree, hunique, rfl⟩

/-! ## Runs -/

theorem Run.boundBy?_absent (h : FreeRun .empty steps w) (hp : w.procedure? ref = none) :
    boundBy? ref steps = none := by
  induction h with
  | nil => rfl
  | @snoc steps v v' c a _ single _ does ih =>
      have hv : v.procedure? ref = none := (execute_effect single does).absent hp
      rw [boundBy?_append, ih hv, Option.none_or]
      cases a with
      | error x => rfl
      | ok o =>
          show c.binding? ref = none
          rw [Option.eq_none_iff_forall_ne_some]
          rintro ⟨signature, s⟩ hbinding
          simp [execute_binding hbinding, changeProcedure, hv] at does

/-- **What a run leaves of the parameters**: those of the first binding that has succeeded. -/
theorem Run.signed (h : FreeRun .empty steps w) (hp : w.procedure? ref = some (m, p)) :
    p.Signed (boundBy? ref steps) := by
  induction h generalizing m p with
  | nil => cases hp
  | @snoc steps v v' c a before single _ does ih =>
      have hstep := step_bound single does hp
      rw [boundBy?_append]
      cases hbinding : Step.binding? ref ⟨c, a⟩ with
      | none =>
          rw [hbinding] at hstep
          rw [Option.or_none]
          rcases hstep with ⟨m₁, p₁, hp₁, hdeclarations, hbound⟩ | ⟨hnone, hsigned⟩
          · exact (ih hp₁).congr hdeclarations hbound
          · rw [Run.boundBy?_absent before hnone]
            exact hsigned
      | some binding =>
          obtain ⟨signature, s⟩ := binding
          rw [hbinding] at hstep
          obtain ⟨m₁, p₁, hp₁, hfree, hunique, rfl⟩ := hstep
          have hfirst : boundBy? ref steps = none := by
            rw [← Option.isNone_iff_eq_none, ← Option.not_isSome, ← (ih hp₁).bound, hfree]
            rfl
          rw [hfirst, Option.none_or]
          exact Procedure.signed_bound hfree hunique

/-! ## Answers -/

/-- How a binding of a writable procedure goes, where `before` tells the binding that it has had:
the answer is `a`, and the workspace afterwards is `w'`. -/
structure Binds (w : Workspace) (m : Model) (p : Procedure)
    (before : Option (Signature × Source)) (signature : Signature) (w' : Workspace)
    (a : Except Error Outcome) : Prop where
  again : a = .error (.signatureAlreadyBound (p.displayName m.settings)) ↔ before ≠ none
  repeated : ∀ name, a = .error (.duplicateParameter (p.displayName m.settings) name) ↔
    before = none ∧ signature.FirstRepeats name
  done : a = .ok .done ↔ before = none ∧ signature.parameters.Nodup
  unchanged : (∃ x, a = .error x) → w' = w

theorem execute_binding_open {before : Option (Signature × Source)}
    (hp : w.procedure? ref = some (m, p)) (hopen : p.isWritable m.settings = true)
    (hsigned : p.Signed before) (hbinding : c.binding? ref = some (signature, s)) :
    ∃ w' a, w.execute c = some (w', a) ∧ Binds w m p before signature w' a := by
  rw [execute_binding hbinding]
  simp only [changeProcedure, hp, Procedure.bindSignature_eq hopen, hsigned.bound]
  cases before with
  | some binding =>
      refine ⟨w, .error _, rfl, ?_, ?_, ?_, fun _ => rfl⟩ <;> simp
  | none =>
      cases hduplicate : signature.firstDuplicate with
      | some key =>
          have hrepeated : ¬ signature.parameters.Nodup := by
            rw [← Signature.firstDuplicate_eq_none_iff, hduplicate]
            exact Option.some_ne_none key
          refine ⟨w, .error _, rfl, ?_, ?_, ?_, fun _ => rfl⟩
          · simp
          · simp [← Signature.firstDuplicate_eq_some_iff, hduplicate]
          · simp [hrepeated]
      | none =>
          refine ⟨_, .ok .done, rfl, ?_, ?_, ?_, by simp⟩
          · simp
          · simp [← Signature.firstDuplicate_eq_some_iff, hduplicate]
          · simp [Signature.firstDuplicate_eq_none_iff.1 hduplicate]

/-- How a builder for the parameter `name` serves: it shows the parameter, and a write through it
fails only where the procedure is removed or its model is finalized. -/
structure Serves (w : Workspace) (ref : ProcedureRef) (m : Model) (p : Procedure)
    (name : String) : Prop where
  shown : ∃ q, p.parameterMetadata m.settings name = .ok q ∧ q.name = name
  written : ∀ c write s, c.request? ref = some (.parameter name write, s) →
    ∃ w' a, w.execute c = some (w', a) ∧ ∀ x, a = .error x →
      x = .removedFromModel (p.displayName m.settings) ∨
        x = .readOnlyModel (p.displayName m.settings)

theorem execute_parameter_open {key : String} {v : Parameter.Write}
    (hp : w.procedure? ref = some (m, p)) (hopen : p.isWritable m.settings = true)
    (hkey : (p.findParameter? key).isSome = true)
    (hreq : c.request? ref = some (.parameter key v, s)) :
    ∃ w' o, w.execute c = some (w', .ok o) := by
  have hwrite : ∀ s, ∃ w' o, w.execute (.write ref (.parameter key v) s) = some (w', .ok o) := by
    intro s
    have hthere : (p.entryAt? (.parameter key v.target)).isSome = true := by
      rw [Procedure.entryAt?, Option.isSome_map, hkey]
    obtain ⟨w', hdoes, _⟩ := execute_write_open hp hopen (.parameter key v) hthere s
    exact ⟨w', _, hdoes⟩
  rcases Command.request?_eq_some hreq with ⟨statement, rfl, hasks, rfl⟩ | ⟨da, rfl, rfl⟩ | rfl
  · obtain rfl : statement = .parameter key v := by
      cases statement <;> cases hasks
      rfl
    have hconfigured : p.configure m.settings (.parameter key v) =
        .ok (p.obey (.parameter key v)) := by
      rw [Procedure.configure_open hopen, Procedure.objection?, Procedure.undeclared?, if_pos hkey]
    simp only [execute]
    exact ⟨_, _, changeProcedure_of_ok hp hconfigured⟩
  · exact hwrite (.ofConvention da)
  · exact hwrite s

theorem serves_of_findParameter? {key : String} {q : Parameter}
    (hp : w.procedure? ref = some (m, p)) (hq : p.findParameter? key = some q) :
    Serves w ref m p key where
  shown := ⟨q, by rw [Procedure.parameterMetadata, hq], (Procedure.findParameter?_eq_some hq).2⟩
  written := by
    intro c write s hreq
    cases hcheck : p.ensureWritable m.settings with
    | error x =>
        have hhandle : c.handle? = some ref := by
          rcases Command.request?_eq_some hreq with ⟨_, rfl, _⟩ | ⟨_, rfl, _⟩ | rfl <;> rfl
        refine ⟨w, .error x, execute_closed hp hcheck hhandle, ?_⟩
        intro y hy
        cases hy
        exact Procedure.ensureWritable_eq_error hcheck
    | ok =>
        have hopen : p.isWritable m.settings = true :=
          (Procedure.ensureWritable_eq_ok_iff _ _).1 hcheck
        obtain ⟨w', o, hdoes⟩ := execute_parameter_open hp hopen (by rw [hq]; rfl) hreq
        exact ⟨w', .ok o, hdoes, nofun⟩

/-! ## At any moment -/

/-- The parameters of the procedure `p` after the steps `steps`, which have come to `w`: what they
are and stay, how bindings go, and how the builders for them serve from now on. -/
structure Declares (steps : List Step) (w : Workspace) (ref : ProcedureRef) (m : Model)
    (p : Procedure) : Prop where
  unbound : boundBy? ref steps = none → p.parameters = []
  bound : ∀ signature s, boundBy? ref steps = some (signature, s) → p.Lists signature s ∧
    ∀ more w', FreeRun w more w' →
      ∃ m' p', w'.procedure? ref = some (m', p') ∧ p'.Lists signature s
  answered : ∀ c signature s, c.binding? ref = some (signature, s) →
    p.isWritable m.settings = true →
    ∃ w' a, w.execute c = some (w', a) ∧ Binds w m p (boundBy? ref steps) signature w' a
  builders : ∀ name q, p.requireParameter m.settings name = .ok q →
    ∀ more w', FreeRun w more w' →
      ∃ m' p', w'.procedure? ref = some (m', p') ∧ Serves w' ref m' p' name

/-- **The parameters of a procedure are those of the one signature that was bound**, at any moment
of any run.  There are none before a binding has succeeded; from then on they are the names of its
signature, declared at its source, whatever follows.  A second binding is refused as such, and
before that a signature with a repeated name is, for the first one; both leave everything as it was.
A builder for a parameter never reports that there is no such parameter. -/
theorem parameters_from_signature (h : FreeRun .empty steps w)
    (hp : w.procedure? ref = some (m, p)) : Declares steps w ref m p where
  unbound hnone := (hnone ▸ Run.signed h hp).parameters_eq_nil
  bound := by
    intro signature s hbound
    refine ⟨(hbound ▸ Run.signed h hp).lists, ?_⟩
    intro more w' hmore
    obtain ⟨m', p', hp', _⟩ := Run.remains hmore hp
    have hsigned := Run.signed (Run.append h hmore) hp'
    rw [boundBy?_append_of_some hbound] at hsigned
    exact ⟨m', p', hp', hsigned.lists⟩
  answered _ _ _ hbinding hopen := execute_binding_open hp hopen (Run.signed h hp) hbinding
  builders := by
    intro name q hq more w' hmore
    have hfound := Procedure.requireParameter_eq_ok hq
    obtain ⟨m', p', hp', habove⟩ := Run.above hmore hp
    obtain ⟨q', hq', _⟩ := habove.declared name q hfound
    exact ⟨m', p', hp', serves_of_findParameter? hp' hq'⟩

/-- A procedure that a signature is bound to between two that are refused. -/
def signed : List Step × Workspace :=
  (carryOn (IsOpen []) [] .empty
    [.createModel .standard, .addType 0 "Blog" none, .createRegistry 0,
      .set ⟨0, 0⟩ ⟨0, 0, "Blog"⟩ .insert,
      .setConvention ⟨0, 0⟩ 0 ⟨0, 0, "Blog"⟩ .insert false,
      .configure ⟨0, 0⟩ (.signature ⟨["id", "id"]⟩),
      .suggestSignature ⟨0, 0⟩ ⟨["id", "title"]⟩ true, .configure ⟨0, 0⟩ (.signature .empty),
      .suggest ⟨0, 0⟩ (.parameter "id" (.storeType (some "int"))) false]).get rfl

theorem parameters_from_signature_signed :
    FreeRun .empty signed.1 signed.2 ∧
    boundBy? ⟨0, 0⟩ signed.1 = some (⟨["id", "title"]⟩, .annotated) ∧
    ∃ m p, signed.2.procedure? ⟨0, 0⟩ = some (m, p) ∧
      Declares signed.1 signed.2 ⟨0, 0⟩ m p := by
  have hsession : Session signed.1 signed.2 := Run.carryOn .nil (Option.some_get rfl).symm
  have hrun : FreeRun .empty signed.1 signed.2 := hsession.mono fun _ _ _ => trivial
  have hp : signed.2.procedure? ⟨0, 0⟩ = some _ := rfl
  exact ⟨hrun, rfl, _, _, hp, parameters_from_signature hrun hp⟩

end Workspace

end ProcedureMapping
