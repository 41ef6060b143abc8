/-!
# Causes of failure

Every operation on the metadata fails for one of the causes below.  The wording is fixed in one
place, `Error.message`.
-/

namespace ProcedureMapping

/-- What is wrong with an identifier. -/
inductive IdentifierProblem where
  | emptyTypeName
  | tooLong (limit : Nat)
  deriving DecidableEq

/-- What is wrong with a configuration, or with what it is asked to hold. -/
inductive ConfigProblem where
  | zeroIdentifierLength
  | unreadable
  | tooManyEntityTypes
  deriving DecidableEq

/-- Why an operation on the metadata failed. -/
inductive Error where
  | removedFromModel (object : String)
  | readOnlyModel (object : String)
  | invalidParameterName (procedure parameter : String)
  | duplicateParameter (procedure parameter : String)
  | signatureAlreadyBound (procedure : String)
  | unsupportedOperation (operation : String)
  | duplicateEntityType (name : String)
  | unknownEntityType (name : String)
  | invalidIdentifier (identifier : String) (problem : IdentifierProblem)
  | invalidConfiguration (problem : ConfigProblem)
  deriving DecidableEq

/-- The wording of an identifier problem. -/
def IdentifierProblem.text : IdentifierProblem → String
  | emptyTypeName => "entity type name is empty"
  | tooLong limit => "exceeds max length " ++ toString limit

/-- The wording of a configuration problem. -/
def ConfigProblem.text : ConfigProblem → String
  | zeroIdentifierLength => "max_identifier_len must be greater than zero"
  | unreadable => "the text is not a configuration"
  | tooManyEntityTypes => "too many entity types"

namespace Error

/-- Whether the cause is the end of a life: of the procedure or of the model's build phase. -/
def isLifecycle : Error → Bool
  | removedFromModel _ | readOnlyModel _ => true
  | _ => false

/-- The wording of an error. -/
def message : Error → String
  | removedFromModel object =>
      "'" ++ object ++ "' has been removed from the model and can no longer be configured"
  | readOnlyModel object => "cannot configure '" ++ object ++ "': the model is read-only"
  | invalidParameterName procedure parameter =>
      "stored procedure '" ++ procedure ++ "' has no parameter named '" ++ parameter ++ "'"
  | duplicateParameter procedure parameter =>
      "stored procedure '" ++ procedure ++ "' already declares a parameter named '"
        ++ parameter ++ "'"
  | signatureAlreadyBound procedure =>
      "stored procedure '" ++ procedure ++ "' already has a bound signature"
  | unsupportedOperation operation => "unsupported stored procedure operation: " ++ operation
  | duplicateEntityType name => "entity type '" ++ name ++ "' already exists in the model"
  | unknownEntityType name => "entity type '" ++ name ++ "' was not found in the model"
  | invalidIdentifier identifier problem =>
      "invalid identifier '" ++ identifier ++ "': " ++ problem.text
  | invalidConfiguration problem => "invalid configuration: " ++ problem.text

end Error

end ProcedureMapping
