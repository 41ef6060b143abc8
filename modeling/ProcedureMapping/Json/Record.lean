import ProcedureMapping.Json.Reader

/-!
# Records in JSON

Fixed shapes in JSON documents.  A **record** has named fields in a fixed order; it is written as
an object, whose unknown keys are ignored and whose known keys may not repeat, or as an array of
the fields in their order, which may be cut short.  A **name** out of a fixed set is written as a
string, or as an object with the name as its only key and `null` under it.

Main statements:

* `name?_ofString` — a name is read back from its text;
* `nat?_ofNat` — a number below the bound is read back;
* `items?_array_map` — a list is read back from the array of its documents.
-/

namespace ProcedureMapping.Json.Document

/-- The members of an object with their keys as text. -/
def keyed? : List (List Piece × Document) → Option (List (String × Document))
  | [] => some []
  | (k, d) :: rest => do
      let k ← Piece.text? k
      let rest ← keyed? rest
      some ((k, d) :: rest)

/-- The fields of a record, by name, as far as they are present. -/
def fields? (names : List String) : Document → Option (List (String × Document))
  | object members =>
      match keyed? members with
      | none => none
      | some keyed =>
          let known := keyed.filter fun (k, _) => names.contains k
          if (known.map Prod.fst).Nodup then some known else none
  | array items => if items.length ≤ names.length then some (names.zip items) else none
  | _ => none

/-- The text of a string document. -/
def string? : Document → Option String
  | string s => Piece.text? s
  | _ => none

/-- The natural number below `bound` that a document gives by its digits alone. -/
def nat? (bound : Nat) : Document → Option Nat
  | number ⟨false, whole, [], none⟩ => if whole < bound then some whole else none
  | _ => none

/-- A part that may be `null`. -/
def nullable? {α : Type} (read : Document → Option α) : Document → Option (Option α)
  | null => some none
  | d => (read d).map some

/-- Every item of an array. -/
def items? {α : Type} (read : Document → Option α) : Document → Option (List α)
  | array items => items.mapM read
  | _ => none

/-- A required field. -/
def required? {α : Type} (fields : List (String × Document)) (name : String)
    (read : Document → Option α) : Option α :=
  match fields.lookup name with
  | some d => read d
  | none => none

/-- A field that may be left out. -/
def defaulted? {α : Type} (fields : List (String × Document)) (name : String) (absent : α)
    (read : Document → Option α) : Option α :=
  match fields.lookup name with
  | some d => read d
  | none => some absent

/-- The name that a document gives. -/
def name? : Document → Option String
  | string s => Piece.text? s
  | object [(k, null)] => Piece.text? k
  | _ => none

/-- A text is read back from its document. -/
@[simp] theorem string?_ofString (s : String) : (ofString s).string? = some s := by
  simp [ofString, string?]

/-- A name is read back from its text. -/
@[simp] theorem name?_ofString (s : String) : (ofString s).name? = some s := by
  simp [ofString, name?]

/-- A natural number is read back from its document. -/
theorem nat?_ofNat {n bound : Nat} (h : n < bound) : (ofNat n).nat? bound = some n := by
  simp [ofNat, nat?, h]

/-- A list is read back from the array of its documents. -/
theorem items?_array_map {α : Type} {read : Document → Option α} {write : α → Document}
    (h : ∀ a, read (write a) = some a) (xs : List α) :
    (array (xs.map write)).items? read = some xs := by
  induction xs with
  | nil => rfl
  | cons a xs ih =>
      simp only [items?, List.map_cons, List.mapM_cons, h] at ih ⊢
      simp [ih]

end ProcedureMapping.Json.Document
