import ProcedureMapping.Error
import ProcedureMapping.Json.Record

/-!
# Signatures

The parameter list of a stored procedure.  A signature may be written down with repeated names,
but only one without can be bound.

Main statements:

* `firstDuplicate_eq_some_iff`, `firstDuplicate_eq_none_iff` — which name is the first to repeat;
* `checkUnique_eq_ok_iff` — the check passes exactly when no name repeats;
* `checkUnique_eq_error_iff` — and otherwise it reports the first repeated name.
-/

namespace ProcedureMapping

/-- The names of the parameters of a procedure, in order. -/
structure Signature where
  parameters : List String
  deriving DecidableEq

namespace Signature

/-- The signature without parameters. -/
def empty : Signature := ⟨[]⟩

/-- The first name that was seen before. -/
def firstSeen (seen : List String) : List String → Option String
  | [] => none
  | name :: rest => if seen.contains name then some name else firstSeen (name :: seen) rest

/-- The name whose second occurrence comes first. -/
def firstDuplicate (signature : Signature) : Option String := firstSeen [] signature.parameters

/-- Refuse a signature with a repeated name. -/
def checkUnique (signature : Signature) (procedure : String) : Except Error Unit :=
  match signature.firstDuplicate with
  | some parameter => .error (.duplicateParameter procedure parameter)
  | none => .ok ()

open Json (Document)

/-- The names of the fields. -/
def fieldNames : List String := ["parameters"]

/-- The JSON document of a signature. -/
def document (signature : Signature) : Document :=
  .object [(Json.Piece.ofString "parameters",
    .array (signature.parameters.map Document.ofString))]

/-- The signature that a document describes. -/
def ofDocument? (d : Document) : Option Signature := do
  let fields ← d.fields? fieldNames
  let parameters ← Document.required? fields "parameters" (Document.items? Document.string?)
  some ⟨parameters⟩

/-- The JSON text of a signature. -/
def text (signature : Signature) : String := signature.document.text

/-- Whether `name` is the first to repeat: it stands before, and nothing before it repeats. -/
def FirstRepeats (signature : Signature) (name : String) : Prop :=
  ∃ before after, signature.parameters = before ++ name :: after ∧ before.Nodup ∧ name ∈ before

theorem firstSeen_eq_some_iff {seen names : List String} {name : String} :
    firstSeen seen names = some name ↔ ∃ before after, names = before ++ name :: after ∧
      before.Nodup ∧ (∀ x ∈ before, x ∉ seen) ∧ (name ∈ seen ∨ name ∈ before) := by
  induction names generalizing seen with
  | nil => simp [firstSeen]
  | cons first rest ih =>
      by_cases hseen : first ∈ seen
      · rw [firstSeen, if_pos (by simpa using hseen), Option.some.injEq]
        constructor
        · rintro rfl
          exact ⟨[], rest, rfl, .nil, nofun, .inl hseen⟩
        · rintro ⟨before, after, hnames, _, hunseen, _⟩
          cases before with
          | nil => exact (List.cons.inj hnames).1
          | cons x before =>
              obtain ⟨rfl, _⟩ := List.cons.inj hnames
              exact absurd hseen (hunseen first List.mem_cons_self)
      · rw [firstSeen, if_neg (by simpa using hseen), ih]
        constructor
        · rintro ⟨before, after, rfl, hnodup, hunseen, hname⟩
          have hfirst : first ∉ before := fun hmem => hunseen first hmem List.mem_cons_self
          refine ⟨first :: before, after, rfl, List.nodup_cons.2 ⟨hfirst, hnodup⟩, ?_, ?_⟩
          · intro x hx
            rcases List.mem_cons.1 hx with rfl | hx
            · exact hseen
            · exact fun hmem => hunseen x hx (List.mem_cons_of_mem _ hmem)
          · simp only [List.mem_cons] at hname ⊢
            grind
        · rintro ⟨before, after, hnames, hnodup, hunseen, hname⟩
          cases before with
          | nil =>
              obtain ⟨rfl, _⟩ := List.cons.inj hnames
              exact absurd (hname.resolve_right nofun) hseen
          | cons x before =>
              obtain ⟨rfl, hrest⟩ := List.cons.inj hnames
              obtain ⟨hfirst, hnodup⟩ := List.nodup_cons.1 hnodup
              refine ⟨before, after, hrest, hnodup, ?_, ?_⟩
              · intro y hy hmem
                rcases List.mem_cons.1 hmem with rfl | hmem
                · exact hfirst hy
                · exact hunseen y (List.mem_cons_of_mem _ hy) hmem
              · simp only [List.mem_cons] at hname ⊢
                grind

theorem firstSeen_eq_none_iff {seen names : List String} :
    firstSeen seen names = none ↔ names.Nodup ∧ ∀ x ∈ names, x ∉ seen := by
  induction names generalizing seen with
  | nil => simp [firstSeen]
  | cons first rest ih =>
      by_cases hseen : first ∈ seen
      · simp [firstSeen, hseen]
      · rw [firstSeen, if_neg (by simpa using hseen), ih]
        simp only [List.nodup_cons, List.mem_cons]
        grind

/-- **The duplicate that is reported** is the first name to repeat. -/
theorem firstDuplicate_eq_some_iff {signature : Signature} {name : String} :
    signature.firstDuplicate = some name ↔ signature.FirstRepeats name := by
  simp [firstDuplicate, firstSeen_eq_some_iff, FirstRepeats]

/-- No duplicate is reported exactly when no name repeats. -/
theorem firstDuplicate_eq_none_iff {signature : Signature} :
    signature.firstDuplicate = none ↔ signature.parameters.Nodup := by
  simp [firstDuplicate, firstSeen_eq_none_iff]

/-- The check passes exactly when no name repeats. -/
theorem checkUnique_eq_ok_iff {signature : Signature} {procedure : String} :
    signature.checkUnique procedure = .ok () ↔ signature.firstDuplicate = none := by
  unfold checkUnique
  split <;> simp_all

/-- A failing check reports the first repeated name. -/
theorem checkUnique_eq_error_iff {signature : Signature} {procedure : String} {e : Error} :
    signature.checkUnique procedure = .error e ↔
      ∃ name, signature.firstDuplicate = some name ∧ e = .duplicateParameter procedure name := by
  unfold checkUnique
  cases signature.firstDuplicate <;> simp [eq_comm]

end Signature

end ProcedureMapping
