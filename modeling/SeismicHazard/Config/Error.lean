/-!
# What can be wrong with a configuration

* `ConfigError`: a file that is not there, a text that does not parse, a setting that is not allowed.
* `Violation`: the rules for settings that a configuration can break, with the setting and the
  sentence that name it.
-/

namespace SeismicHazard

/-- A rule for settings that a configuration breaks. -/
inductive Violation where
  /-- A setting that must be finite and greater than zero. -/
  | notPositive (setting : String)
  /-- A count that must be at least one. -/
  | zeroCount (setting : String)
  | negativeWeight
  | thresholdOutOfRange
  | levelNotPositive (imt : String)
  | levelNotRequested (imt : String)
  | levelMissing (imt : String)
  | unknownView (name : String)
  | nothingRequested
  | noMeasure
  | other (setting sentence : String)

namespace Violation

def setting : Violation → String
  | notPositive s | zeroCount s | other s _ => s
  | negativeWeight => "execution.point_source_weight"
  | thresholdOutOfRange | nothingRequested => "calculation.poes_disagg"
  | levelNotPositive _ | levelNotRequested _ | levelMissing _ => "calculation.iml_disagg"
  | unknownView _ => "execution.pmf_views"
  | noMeasure => "calculation.intensity_measure_types"

def sentence : Violation → String
  | notPositive _ => "must be finite and greater than 0"
  | zeroCount _ => "must be at least 1"
  | negativeWeight => "must be finite and >= 0"
  | thresholdOutOfRange => "every PoE must be in (0, 1]"
  | levelNotPositive imt => "level for " ++ imt ++ " must be finite and greater than 0"
  | levelNotRequested imt => imt ++ " is not one of the intensity measure types"
  | levelMissing imt => "missing a level for " ++ imt
  | unknownView name => "unknown PMF view '" ++ name ++ "'"
  | nothingRequested => "either poes_disagg or iml_disagg must be given"
  | noMeasure => "at least one intensity measure type is required"
  | other _ s => s

end Violation

inductive ConfigError where
  | fileNotFound (path : String)
  /-- A text that does not parse, with the reason if it is known. -/
  | unparsable (path : String) (reason : Option String)
  | invalid (violation : Violation)

namespace ConfigError

def code : ConfigError → String
  | _ => "CONFIG_ERROR"

def message : ConfigError → String
  | fileNotFound path => "Config file not found: " ++ path
  | unparsable path none => "Config parse error in " ++ path
  | unparsable path (some reason) => "Config parse error in " ++ path ++ ": " ++ reason
  | invalid v => "Config validation failed for " ++ v.setting ++ ": " ++ v.sentence

end ConfigError

end SeismicHazard
