import TurtleChain.Curve.Family
import TurtleChain.ESequence.Shape

/-! What a run is configured by. -/

namespace TurtleChain

structure Config where
  family : Family := .hilbert
  sideLength : Float := 1
  /-- The number of passes; the family's own if not set. -/
  iterations : Option Nat := none
  /-- The most operations that a generation may have. -/
  maxOperations : Nat := 1000000
  eSequence : ESequenceShape := {}
  /-- The seed of the E-sequence's jitter; every block has multiplier one if not set. -/
  jitterSeed : Option UInt64 := none

inductive ConfigError where
  | missingPath
  /-- The file could not be read, for this reason. -/
  | unreadable (reason : String)
  | malformed
  | sideLength (error : InvalidParameter)
  | maxOperations
  | eSequence (error : InvalidParameter)
  | eSequenceTooLong (length limit : Nat)
  | unknownFamily (text : String)

namespace ConfigError

private def invalid (field reason : String) : String :=
  "Invalid config value for " ++ field ++ ": " ++ reason

def message : ConfigError → String
  | missingPath => "Missing configuration file path (use --config or ANTPATH_CONFIG)"
  | unreadable reason => "Failed to read config file: " ++ reason
  | malformed => "Failed to parse config: "
  | sideLength e => invalid "side_length" e.message
  | maxOperations => invalid "max_operations" "must be > 0"
  | eSequence e => invalid "e_sequence" e.message
  | eSequenceTooLong length limit =>
    invalid "e_sequence" ("generates " ++ toString length ++ " operations, more than max_operations (" ++
      toString limit ++ ")")
  | unknownFamily text => "Unknown fractal family: " ++ text

end ConfigError

namespace Config

def passes (config : Config) : Nat :=
  config.iterations.getD config.family.defaultIterations

/-- The E-sequence is checked for every family, its length only where it is drawn. -/
def validate (config : Config) : Except ConfigError Unit := do
  (Parameter.sideLength.checkLength config.sideLength).mapError .sideLength
  if config.maxOperations = 0 then .error .maxOperations
  else
    config.eSequence.validate.mapError .eSequence
    if config.family = .generic then
      let length ← config.eSequence.operationCount.mapError .eSequence
      if config.maxOperations < length then .error (.eSequenceTooLong length config.maxOperations)

/-- Values that take the place of configured ones. -/
structure Overrides where
  family : Option Family := none
  iterations : Option Nat := none
  sideLength : Option Float := none
  maxOperations : Option Nat := none
  jitterSeed : Option UInt64 := none

def override (config : Config) (o : Overrides) : Config :=
  { config with
    family := o.family.getD config.family
    iterations := o.iterations <|> config.iterations
    sideLength := o.sideLength.getD config.sideLength
    maxOperations := o.maxOperations.getD config.maxOperations
    jitterSeed := o.jitterSeed <|> config.jitterSeed }

end Config

end TurtleChain
