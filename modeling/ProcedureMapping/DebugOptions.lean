/-!
# Options of debug texts

How much of a stored procedure its debug text shows.
-/

namespace ProcedureMapping

/-- How much a debug text shows. -/
structure DebugOptions where
  singleLine : Bool
  includeAnnotations : Bool
  deriving DecidableEq

namespace DebugOptions

/-- Parameters but no annotations. -/
def short : DebugOptions := ⟨false, false⟩

/-- The heading alone. -/
def oneLine : DebugOptions := ⟨true, false⟩

/-- Parameters and annotations. -/
def long : DebugOptions := ⟨false, true⟩

/-- The same options with annotations shown or not. -/
def withAnnotations (o : DebugOptions) (shown : Bool) : DebugOptions :=
  { o with includeAnnotations := shown }

end DebugOptions

end ProcedureMapping
