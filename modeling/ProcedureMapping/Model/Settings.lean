import ProcedureMapping.Config
import ProcedureMapping.Tracked

/-!
# Model settings

The part of a model that everything in it can see: the configuration it was created with, the
current default schema, and whether the model has been finalized.

A default schema that the configuration brings counts as configured explicitly.

Main statements:

* `ensureWritable_eq_ok_iff` — writes are open exactly until the model is finalized;
* `ofConfig_defaultSchema_source` — what a configuration says about the default schema is
  explicit.
-/

namespace ProcedureMapping

/-- What every object of a model can see of it. -/
structure ModelSettings where
  config : Config
  defaultSchema : Tracked (Option String)
  readOnly : Bool
  deriving DecidableEq

namespace ModelSettings

/-- The settings of a new model. -/
def ofConfig (config : Config) : ModelSettings where
  config := config
  defaultSchema :=
    match config.defaultSchema with
    | some schema => .configured (some schema) .explicit
    | none => .unset none
  readOnly := false

/-- Refuse to configure `object` once the model is read-only. -/
def ensureWritable (settings : ModelSettings) (object : String) : Except Error Unit :=
  if settings.readOnly then .error (.readOnlyModel object) else .ok ()

/-- Writes are open exactly until the model is finalized. -/
theorem ensureWritable_eq_ok_iff {settings : ModelSettings} {object : String} :
    settings.ensureWritable object = .ok () ↔ settings.readOnly = false := by
  unfold ensureWritable
  split <;> simp_all

/-- What a configuration says about the default schema is explicit. -/
theorem ofConfig_defaultSchema_source (config : Config) :
    (ofConfig config).defaultSchema.source
      = config.defaultSchema.map fun _ => Source.explicit := by
  cases h : config.defaultSchema <;> simp [ofConfig, h, Tracked.configured, Tracked.unset]

end ModelSettings

end ProcedureMapping
