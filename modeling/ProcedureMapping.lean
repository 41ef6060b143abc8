import ProcedureMapping.Workspace
import ProcedureMapping.Procedure.Rendering
import ProcedureMapping.Json.Meaning
import ProcedureMapping.Proofs.Effect
import ProcedureMapping.Proofs.Frame
import ProcedureMapping.Proofs.Session
import ProcedureMapping.Proofs.Slots
import ProcedureMapping.Proofs.Ledger
import ProcedureMapping.Proofs.Attributes
import ProcedureMapping.Proofs.Conventions
import ProcedureMapping.Proofs.Precedence
import ProcedureMapping.Proofs.Names
import ProcedureMapping.Proofs.Schemas
import ProcedureMapping.Proofs.Closed
import ProcedureMapping.Proofs.Statements
import ProcedureMapping.Proofs.StoreTypes
import ProcedureMapping.Proofs.Signatures
import ProcedureMapping.Proofs.ConventionRemoval
import ProcedureMapping.Proofs.SignedZeros
import ProcedureMapping.Proofs.Finalization
import ProcedureMapping.Proofs.Removal
import ProcedureMapping.Proofs.Hierarchy
import ProcedureMapping.Proofs.SlotSources
import ProcedureMapping.Proofs.LifeCycle
import ProcedureMapping.Proofs.Contributions
import ProcedureMapping.Proofs.Commutation
import ProcedureMapping.Proofs.Ancestry
import ProcedureMapping.Proofs.AnnotationHistory
import ProcedureMapping.Proofs.Annotations
import ProcedureMapping.Proofs.RisingSources
import ProcedureMapping.Proofs.Explicit
import ProcedureMapping.Proofs.Documents
import ProcedureMapping.Proofs.Serialization
import ProcedureMapping.Proofs.Lookup
import ProcedureMapping.Proofs.Targets
import ProcedureMapping.Proofs.Answers
import ProcedureMapping.Proofs.Independence
import ProcedureMapping.Proofs.DerivedTypes
import ProcedureMapping.Proofs.Reuse
import ProcedureMapping.Proofs.Enumeration
import ProcedureMapping.Proofs.Provenance
import ProcedureMapping.Proofs.Reaffirmation
import ProcedureMapping.Proofs.BlankNames
import ProcedureMapping.Proofs.IdentifierLimit
import ProcedureMapping.Proofs.Attempts
import ProcedureMapping.Proofs.TrackedAttributes
import ProcedureMapping.Proofs.Duplicates
import ProcedureMapping.Proofs.Configurations
import ProcedureMapping.Proofs.DebugTexts
