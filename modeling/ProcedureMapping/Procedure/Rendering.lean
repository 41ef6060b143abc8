import ProcedureMapping.Procedure.Basic

/-!
# Debug texts of procedures

The debug text of a procedure is a heading; below it, unless a single line is wanted, the
parameters in signature order and, if wanted, the annotations.  Everything is indented by the same
number of spaces, parts of parts by more.

Main statement: `debugLines_oneLine` — with a single line the heading is all.
-/

namespace ProcedureMapping.Procedure

open Text (spaces unlines)

variable (settings : ModelSettings) (p : Procedure)

/-- The first line of the debug text. -/
def heading (indent : Nat) : String :=
  spaces indent ++ "StoredProcedure: " ++ p.displayName settings

/-- The lines of the parameters: none without parameters. -/
def parameterLines (options : DebugOptions) (indent : Nat) : List String :=
  if p.parameters.isEmpty then []
  else
    (spaces indent ++ "  Parameters:")
      :: p.parameters.flatMap fun parameter => parameter.debugLines options (indent + 4)

/-- The lines of the debug text. -/
def debugLines (options : DebugOptions) (indent : Nat) : List String :=
  p.heading settings indent ::
    if options.singleLine then []
    else
      p.parameterLines options indent
        ++ if options.includeAnnotations then p.annotations.debugLines (indent + 2) else []

/-- The debug text. -/
def debugText (options : DebugOptions) (indent : Nat) : String :=
  unlines (p.debugLines settings options indent)

/-- The text under which a procedure is shown. -/
def display : String := p.debugText settings .oneLine 0

/-- With a single line the heading is all. -/
theorem debugLines_oneLine (indent : Nat) {options : DebugOptions}
    (h : options.singleLine = true) :
    p.debugLines settings options indent = [p.heading settings indent] := by
  simp [debugLines, h]

end ProcedureMapping.Procedure
