import SeismicHazard.Axis
import SeismicHazard.Number.Decimal
import SeismicHazard.Storage.Error

/-!
# What can go wrong in a disaggregation

Failures are kept as causes, with the values that explain them; `Error.code` and `Error.message` put
them into words.

* `BadInput`: the ways in which an input makes no sense.
* `BadModel`: the ways in which a ground-motion model cannot answer.
* `Error`: all failures of a disaggregation.
-/

namespace SeismicHazard

/-- A way in which an input makes no sense. -/
inductive BadInput (α : Type) where
  | tooFewEdges (axis : Axis) (count : Nat)
  | edgesNotIncreasing (axis : Axis) (edges : List α)
  /-- A hazard curve with different numbers of levels and probabilities, or with none. -/
  | curveLengths (levels probabilities : Nat)
  | curveLevels
  | curveProbabilities
  | duplicateSite (id : Nat)
  | siteDistance (id : Nat)
  /-- A realization that names no ground-motion model for a region. -/
  | noModelFor (realization : Nat) (region : String)
  | noSources
  | binnedRates
  | negativeRate
  | truncatedRange (minMag maxMag width : α)
  | unknownSite (id : Nat)
  | noEdges (site : Nat)
  | other (message : String)

/-- A way in which a ground-motion model cannot answer. -/
inductive BadModel (α : Type) where
  | sigma (imt : String)
  | unknownMeasure (imt : String)
  | level (iml : α)
  | other (message : String)

/-- A failure of a disaggregation. -/
inductive Error (α : Type) where
  /-- A threshold that no hazard curve of a realization reaches. -/
  | unreachable (model : Nat) (modelName : String) (poe : α) (realization : Nat) (imt : String)
      (maxPoe : α)
  /-- A value outside the edges of an axis. -/
  | outOfRange (site : Nat) (axis : Axis) (value low high : α)
  | shape (what : String) (expected actual : List Nat)
  | unknownModel (name : String)
  | groundMotion (name : String) (fault : BadModel α)
  | sourceWithoutNodes (source : String)
  /-- An area whose bounds are reversed or whose spacing is not positive. -/
  | sourceBounds (source : String) (spacing : α)
  | sourceRegion (source region : String)
  /-- Another failure, met while working on a source. -/
  | sourceFailed (source : String) (cause : Error α)
  | sourceOther (source message : String)
  | input (fault : BadInput α)
  | executor (message : String)
  /-- The views of a result that do not agree on the overall probability. -/
  | inconsistent (name : String) (aggregates : List α)
  | cancelled
  | config (error : ConfigError)
  | storage (error : StorageError)

namespace Error

/-- Numbers in a sentence are written in full, whole ones without a fraction. -/
def inSentence : Layout where
  positional := none
  pointZero := false
  plusSign := false
  exponentWidth := 1
  tie := .up
  nanText := "NaN"
  infinityText := "inf"

/-- Numbers in a list have a fraction, and an exponent below `0.0001` and from `1e16` on. -/
def inList : Layout where
  positional := some (-4, 16)
  pointZero := true
  plusSign := false
  exponentWidth := 1
  tie := .up
  nanText := "NaN"
  infinityText := "inf"

section

variable {α : Type} [DecimalText α]

def showList (xs : List α) : String :=
  "[" ++ ", ".intercalate (xs.map inList.text) ++ "]"

def inputMessage : BadInput α → String
  | .tooFewEdges axis count =>
    axis.label ++ " edges need at least two values, got " ++ count.repr
  | .edgesNotIncreasing axis edges =>
    axis.label ++ " edges are not strictly increasing: " ++ showList edges
  | .curveLengths levels probabilities =>
    "hazard curve needs as many PoEs as levels (got " ++ levels.repr ++ " levels, "
      ++ probabilities.repr ++ " poes)"
  | .curveLevels => "hazard curve levels must be strictly increasing"
  | .curveProbabilities => "hazard curve PoEs must be in [0, 1]"
  | .duplicateSite id => "duplicate site id " ++ id.repr
  | .siteDistance id => "site " ++ id.repr ++ " has a non-positive integration distance"
  | .noModelFor realization region =>
    "realization #" ++ realization.repr ++ " has no ground-motion model for '" ++ region ++ "'"
  | .noSources => "the source models contain no sources"
  | .binnedRates => "discrete MFD needs a positive bin width and at least one rate"
  | .negativeRate => "MFD rates must be non-negative"
  | .truncatedRange minMag maxMag width =>
    "truncated GR needs min_mag < max_mag and a positive bin width (got " ++ inSentence.text minMag
      ++ ".." ++ inSentence.text maxMag ++ ", width " ++ inSentence.text width ++ ")"
  | .unknownSite id => "result for unknown site " ++ id.repr
  | .noEdges site => "no bin edges for site " ++ site.repr
  | .other message => message

def modelMessage : BadModel α → String
  | .sigma imt => "sigma for " ++ imt ++ " must be positive"
  | .unknownMeasure imt => "no coefficients for " ++ imt
  | .level iml => "intensity level must be positive, got " ++ inSentence.text iml
  | .other message => message

def message : Error α → String
  | unreachable model modelName poe realization imt maxPoe =>
    "You are trying to disaggregate for poe=" ++ inSentence.text poe
      ++ ". However the source model #" ++ model.repr ++ ", '" ++ modelName
      ++ "', produces at most probabilities of " ++ inSentence.text maxPoe ++ " for rlz=#"
      ++ realization.repr ++ ", IMT=" ++ imt
      ++ ". The disaggregation PoE is too big or your model is wrong, producing too small PoEs."
  | outOfRange site axis value low high =>
    axis.label ++ " value " ++ inSentence.text value ++ " for site " ++ site.repr
      ++ " is outside the bin edges [" ++ inSentence.text low ++ ", " ++ inSentence.text high ++ "]"
  | shape what expected actual =>
    "Shape mismatch for " ++ what ++ ": expected " ++ showShape expected ++ ", got "
      ++ showShape actual
  | unknownModel name => "No ground-motion model registered as '" ++ name ++ "'"
  | groundMotion name fault => "Ground-motion model " ++ name ++ " failed: " ++ modelMessage fault
  | sourceWithoutNodes source => "Source " ++ source ++ " failed: area source has no nodes"
  | sourceBounds source spacing =>
    "Source " ++ source ++ " failed: invalid area bounds or spacing " ++ inSentence.text spacing
  | sourceRegion source region =>
    "Source " ++ source ++ " failed: unknown tectonic region type '" ++ region ++ "'"
  | sourceFailed source cause => "Source " ++ source ++ " failed: " ++ cause.message
  | sourceOther source message => "Source " ++ source ++ " failed: " ++ message
  | input fault => "Invalid input: " ++ inputMessage fault
  | executor message => "Executor error: " ++ message
  | inconsistent name aggregates =>
    "Aggregate PoE differs across PMF views for " ++ name ++ ": " ++ showList aggregates
  | cancelled => "Disaggregation cancelled"
  | config error => "Configuration error: " ++ error.message
  | storage error => "Storage error: " ++ error.message

end

def code {α : Type} : Error α → String
  | unreachable .. => "POE_TOO_BIG"
  | outOfRange .. => "BIN_RANGE_VIOLATION"
  | shape .. => "SHAPE_MISMATCH"
  | unknownModel _ => "UNKNOWN_GSIM"
  | groundMotion .. => "GSIM_ERROR"
  | sourceWithoutNodes _ | sourceBounds .. | sourceRegion .. | sourceFailed .. | sourceOther .. =>
    "SOURCE_ERROR"
  | input _ => "INVALID_INPUT"
  | executor _ => "EXECUTOR_ERROR"
  | inconsistent .. => "INCONSISTENT_VIEWS"
  | cancelled => "CANCELLED"
  | config error => error.code
  | storage error => error.code

end Error

def codedText (code message : String) : String := "[" ++ code ++ "] " ++ message

end SeismicHazard
