import TurtleChain.Config.Generate
import TurtleChain.Walk.Report

/-! What a run logs. -/

namespace TurtleChain

inductive LogLevel where
  | info
  | warn
  | error
  deriving DecidableEq

namespace LogLevel

def name : LogLevel → String
  | info => "INFO"
  | warn => "WARN"
  | error => "ERROR"

end LogLevel

inductive LogEvent where
  | generated (config : Config) (result : Config.Generated)
  | tooLong (generation length limit : Nat)
  | dropped (operation : Operation) (error : ActionError)
  | walked (report : Walk.Report)
  | valid (config : Config)
  | failed (failure : Failure)

namespace LogEvent

def level : LogEvent → LogLevel
  | generated .. | walked _ | valid _ => .info
  | tooLong .. | dropped .. => .warn
  | failed _ => .error

/-- The part of the program that an event comes from. -/
def target : LogEvent → String
  | generated .. | walked _ => "antpath::pipeline"
  | tooLong .. => "antpath_dsl::rewrite"
  | dropped .. => "antpath_walker::walker"
  | valid _ | failed _ => "antpath"

def message : LogEvent → String
  | generated .. => "sequence generated"
  | tooLong .. => "generation too long"
  | dropped .. => "dropped operation"
  | walked _ => "walk complete"
  | valid _ => "configuration is valid"
  | failed _ => "command failed"

/-- What an event tells beside its message. -/
def details : LogEvent → List (String × Json)
  | generated config result =>
    [("family", .string config.family.name), ("iterations", .ofNat config.passes),
      ("rules", .ofNat result.table.size), ("operations", .ofNat result.sequence.length),
      ("draws", .ofNat (Sequence.countNamed drawNames result.sequence))]
  | tooLong generation length limit =>
    [("generation", .ofNat generation), ("length", .ofNat length), ("limit", .ofNat limit)]
  | dropped operation error =>
    [("operation", .string operation.render), ("error", .string error.message)]
  | walked report =>
    [("x", .ofInt report.position.x), ("y", .ofInt report.position.y),
      ("path_length", .ofNat report.pathLength), ("skipped", .ofNat report.tally.skipped)]
  | valid config => [("iterations", .ofNat config.passes)]
  | failed failure => [("error", .string failure.message)]

def fields (event : LogEvent) : List (String × Json) :=
  ("message", .string event.message) :: event.details

def toJson (event : LogEvent) : Json :=
  .object [("level", .string event.level.name), ("fields", .object event.fields),
    ("target", .string event.target)]

/-- Events are asked for by the word `json` in any case, blanks around it left out. -/
def areWanted : Option String → Bool
  | none => false
  | some text =>
    let rest := text.toList.dropWhile Text.isBlank
    let word := (rest.reverse.dropWhile Text.isBlank).reverse
    word.map Char.toLower == "json".toList

end LogEvent

/-- What generating logs. A seed that is over the limit is not logged. -/
def Config.generateEvents (config : Config) : Except Failure Config.Generated → List LogEvent
  | .ok result => [.generated config result]
  | .error (.rewrite (.tooLong generation length limit)) =>
    if generation = 0 then [] else [.tooLong generation length limit]
  | .error _ => []

/-- What walking logs: each operation that an argument made useless, and the end. -/
def Walk.events (walk : Walk) : List LogEvent :=
  walk.outcomes.filterMap (fun outcome => outcome.error.map (.dropped outcome.operation)) ++
    [.walked walk.report]

end TurtleChain
