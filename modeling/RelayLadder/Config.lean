import RelayLadder.Mapping.Rule
import RelayLadder.Validation.Settings

/-!
# Configuration

One configuration bundles the device limits, the mapper settings and, optionally, the
validator settings. Without validator settings the validator uses its defaults with the
configuration's limits.
-/

namespace RelayLadder

/-- Every table the tools are configured with. -/
structure Config where
  limits : DeviceLimits := {}
  mapper : MapperSettings := {}
  validator : Option ValidatorSettings := none
  deriving DecidableEq, Repr, Inhabited

/-- The validator settings: the explicit ones, or the defaults with the configuration's
limits. -/
def Config.validatorSettings (c : Config) : ValidatorSettings :=
  c.validator.getD { limits := c.limits }

end RelayLadder
