import ProcedureMapping.AnnotationStore
import ProcedureMapping.DebugOptions
import ProcedureMapping.Tracked
import ProcedureMapping.TypeMapping

/-!
# Parameters

A parameter of a stored procedure: its name, the source that declared it, a tracked store type, a
tracked type mapping, and annotations.  The type that applies is the configured store type, or
else that of the type mapping.

A change to a parameter is a `Parameter.Write`; every write is negotiated at a source.

A parameter that is declared takes the place of the one of its name, or else it comes last.

Main statements:

* `name_record`, `source_record` — a write keeps the name and the declaring source;
* `write?_isSome` — a write applies exactly when it is accepted;
* `declareAll_eq` — new names that do not repeat come last, in their order.
-/

namespace ProcedureMapping

/-- A parameter of a stored procedure. -/
structure Parameter where
  name : String
  storeType : Tracked (Option String)
  typeMapping : Tracked (Option TypeMapping)
  source : Source
  annotations : AnnotationStore

namespace Parameter

open Text (spaces)

/-- A change to one attribute of a parameter. -/
inductive Write where
  | storeType (value : Option String)
  | typeMapping (mapping : Option TypeMapping)
  | annotate (name : String) (value : Json.Value)

/-- A parameter as its signature declares it. -/
def declared (name : String) (source : Source) : Parameter :=
  ⟨name, .unset none, .unset none, source, .empty⟩

/-- The parameters with `q` among them: in the place of the one of its name, or at the end. -/
def insertInto (q : Parameter) : List Parameter → List Parameter
  | [] => [q]
  | r :: rest => if r.name = q.name then q :: rest else r :: q.insertInto rest

/-- The parameters after names have been declared at source `s`, one after the other. -/
def declareAll (parameters : List Parameter) (names : List String) (s : Source) : List Parameter :=
  names.foldl (fun parameters name => (declared name s).insertInto parameters) parameters

/-- The store type that applies. -/
def effectiveStoreType (p : Parameter) : Option String :=
  match p.storeType.value with
  | some storeType => some storeType
  | none => p.typeMapping.value.map TypeMapping.storeType

/-- Whether a write at source `s` is accepted. -/
def accepts (p : Parameter) (w : Write) (s : Source) : Bool :=
  match w with
  | .storeType value => p.storeType.accepts value s
  | .typeMapping mapping => p.typeMapping.accepts mapping s
  | .annotate name value => p.annotations.accepts name value s

/-- Record a write without asking. -/
def record (p : Parameter) (w : Write) (s : Source) : Parameter :=
  match w with
  | .storeType value => { p with storeType := p.storeType.set value s }
  | .typeMapping mapping => { p with typeMapping := p.typeMapping.set mapping s }
  | .annotate name value => { p with annotations := p.annotations.put name value s }

/-- Write at source `s`; `none` when the write backs off. -/
def write? (p : Parameter) (w : Write) (s : Source) : Option Parameter :=
  if p.accepts w s then some (p.record w s) else none

/-- The lines of the debug text: the name with the store type, and the annotations if wanted. -/
def debugLines (p : Parameter) (options : DebugOptions) (indent : Nat) : List String :=
  let heading := match p.effectiveStoreType with
    | some storeType => spaces indent ++ p.name ++ " " ++ storeType
    | none => spaces indent ++ p.name
  heading ::
    if !options.singleLine && options.includeAnnotations then
      p.annotations.debugLines (indent + 2)
    else []

/-- The debug text of a parameter. -/
def debugText (p : Parameter) (options : DebugOptions) (indent : Nat) : String :=
  Text.unlines (p.debugLines options indent)

@[simp] theorem name_record (p : Parameter) (w : Write) (s : Source) :
    (p.record w s).name = p.name := by cases w <;> rfl

@[simp] theorem source_record (p : Parameter) (w : Write) (s : Source) :
    (p.record w s).source = p.source := by cases w <;> rfl

/-- A write applies exactly when it is accepted. -/
theorem write?_isSome (p : Parameter) (w : Write) (s : Source) :
    (p.write? w s).isSome = p.accepts w s := by
  by_cases h : p.accepts w s = true <;> simp [write?, h]

/-- A parameter of a new name comes last. -/
theorem insertInto_of_new {q : Parameter} {parameters : List Parameter}
    (hnew : q.name ∉ parameters.map Parameter.name) :
    q.insertInto parameters = parameters ++ [q] := by
  induction parameters with
  | nil => rfl
  | cons r rest ih =>
      rw [List.map_cons, List.mem_cons, not_or] at hnew
      rw [insertInto, if_neg (Ne.symm hnew.1), ih hnew.2, List.cons_append]

/-- **New names that do not repeat** come last, in their order. -/
theorem declareAll_eq {parameters : List Parameter} {names : List String}
    (hnames : (parameters.map Parameter.name ++ names).Nodup) (s : Source) :
    declareAll parameters names s = parameters ++ names.map (declared · s) := by
  induction names generalizing parameters with
  | nil => simp [declareAll]
  | cons name names ih =>
      have hnew : (declared name s).name ∉ parameters.map Parameter.name := by
        intro hmem
        exact (List.nodup_append.1 hnames).2.2 name hmem name List.mem_cons_self rfl
      have hrest : ((parameters ++ [declared name s]).map Parameter.name ++ names).Nodup := by
        simpa [declared] using hnames
      calc declareAll parameters (name :: names) s
          = declareAll ((declared name s).insertInto parameters) names s := rfl
        _ = declareAll (parameters ++ [declared name s]) names s := by
          rw [insertInto_of_new hnew]
        _ = parameters ++ [declared name s] ++ names.map (declared · s) := ih hrest
        _ = parameters ++ (name :: names).map (declared · s) := by simp

end Parameter

end ProcedureMapping
