import ProcedureMapping.Error
import ProcedureMapping.Json.Record

/-!
# Model configuration

The settings that a model is created with: an initial default schema, the separator of default
procedure names, and a limit on the length of identifiers.

A configuration is written as a JSON record.  Every field may be left out and then has its
standard value; only the default schema may be `null`.

Main statements:

* `ofText_error` — reading fails only with an invalid configuration;
* `validate_eq_ok_iff` — which configurations are valid.
-/

namespace ProcedureMapping

/-- The settings of a model. -/
structure Config where
  defaultSchema : Option String
  nameSeparator : String
  maxIdentifierLength : UInt64
  deriving DecidableEq

namespace Config

/-- The configuration that is used unless another is given. -/
def standard : Config := ⟨none, "_", 128⟩

/-- The limit on identifiers has to be positive. -/
def validate (c : Config) : Except Error Unit :=
  if c.maxIdentifierLength = 0 then .error (.invalidConfiguration .zeroIdentifierLength)
  else .ok ()

/-- Refuse an identifier of more characters than the limit allows. -/
def validateIdentifier (c : Config) (identifier : String) : Except Error Unit :=
  if c.maxIdentifierLength.toNat < identifier.length then
    .error (.invalidIdentifier identifier (.tooLong c.maxIdentifierLength.toNat))
  else .ok ()

/-- The names of the fields in their order. -/
def fieldNames : List String := ["default_schema", "name_separator", "max_identifier_len"]

open Json (Document)

/-- The JSON document of a configuration. -/
def document (c : Config) : Document :=
  .object
    [(Json.Piece.ofString "default_schema", Document.ofOption Document.ofString c.defaultSchema),
      (Json.Piece.ofString "name_separator", Document.ofString c.nameSeparator),
      (Json.Piece.ofString "max_identifier_len", Document.ofNat c.maxIdentifierLength.toNat)]

/-- The configuration that a document describes. -/
def ofDocument? (d : Document) : Option Config := do
  let fields ← d.fields? fieldNames
  let schema ← Document.defaulted? fields "default_schema" standard.defaultSchema
    (Document.nullable? Document.string?)
  let separator ← Document.defaulted? fields "name_separator" standard.nameSeparator
    Document.string?
  let limit ← Document.defaulted? fields "max_identifier_len"
    standard.maxIdentifierLength.toNat (Document.nat? UInt64.size)
  some ⟨schema, separator, UInt64.ofNat limit⟩

/-- The JSON text of a configuration. -/
def text (c : Config) : String := c.document.text

/-- The valid configuration that a JSON text describes. -/
def ofText (s : String) : Except Error Config :=
  match (Document.read? s).bind ofDocument? with
  | none => .error (.invalidConfiguration .unreadable)
  | some c => c.validate.map fun _ => c

/-- **Which configurations are valid.** -/
theorem validate_eq_ok_iff {c : Config} : c.validate = .ok () ↔ c.maxIdentifierLength ≠ 0 := by
  unfold validate
  split <;> simp_all

/-- Reading fails only with an invalid configuration. -/
theorem ofText_error {s : String} {e : Error} (h : ofText s = .error e) :
    ∃ problem, e = .invalidConfiguration problem := by
  unfold ofText validate at h
  split at h
  · exact ⟨_, (Except.error.inj h).symm⟩
  · split at h
    · exact ⟨_, (Except.error.inj h).symm⟩
    · cases h

end Config

end ProcedureMapping
