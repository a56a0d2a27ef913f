import TurtleChain.Chain.Printer
import TurtleChain.Command.Arguments
import TurtleChain.Command.Event
import TurtleChain.Config.Load
import TurtleChain.Record.Chain

/-! Running the commands. -/

namespace TurtleChain

/-- What a finished run leaves: its two texts, its exit code, and what it logged on the way. -/
structure RunResult where
  output : String := ""
  errors : String := ""
  exitCode : UInt8 := 0
  events : List LogEvent := []

namespace RunResult

/-- The result of a command that logged `events` before it came to an end. -/
def ofOutcome (events : List LogEvent) : Except Failure String → RunResult
  | .ok output => { output := output, events := events }
  | .error failure => {
      errors := "error: " ++ failure.message ++ "\n"
      exitCode := 1
      events := events ++ [.failed failure] }

end RunResult

/-- A sequence as JSON, on lines of its own. -/
def Sequence.jsonText (ops : Sequence) : String :=
  (Sequence.toJson ops).pretty

def GenerateOptions.load (options : GenerateOptions) (files : Files) : Except Failure Config :=
  (Config.load files options.configPath options.overrides).mapError .config

namespace Command

def runParse (source : String) (json : Bool) : RunResult :=
  .ofOutcome [] <| ((TurtleChain.parse source).mapError .syntaxError).map fun ops =>
    if json then ops.jsonText ++ "\n" else ops.listing

/-- Loads and generates, and ends with what `next` makes of the sequence and what that logs. -/
private def runGenerated (files : Files) (options : GenerateOptions)
    (next : Sequence → List LogEvent × String) : RunResult :=
  match options.load files with
  | .error failure => .ofOutcome [] (.error failure)
  | .ok config =>
    let result := config.generate
    let events := config.generateEvents result
    match result with
    | .error failure => .ofOutcome events (.error failure)
    | .ok generated =>
      let (more, output) := next generated.sequence
      .ofOutcome (events ++ more) (.ok output)

def runGenerate (files : Files) (options : GenerateOptions) : RunResult :=
  runGenerated files options fun ops =>
    ([], (if options.json then ops.jsonText else ops.toChain false) ++ "\n")

def runWalk (files : Files) (options : GenerateOptions) (walkOptions : Walk.Options) : RunResult :=
  runGenerated files options fun ops =>
    let walk := Walk.along walkOptions ops
    let report := walk.report
    (walk.events, if options.json then report.toJson.pretty ++ "\n" else report.render)

def runCheckConfig (files : Files) (path : Option String) : RunResult :=
  let loaded := match path with
    | some path => Config.load files (some path) {}
    | none => .error .missingPath
  match loaded with
  | .error e => .ofOutcome [] (.error (.config e))
  | .ok config => .ofOutcome [.valid config] (.ok config.document)

def run (files : Files) : Command → RunResult
  | parse source json => runParse source json
  | generate options => runGenerate files options
  | walk options walkOptions => runWalk files options walkOptions
  | checkConfig path => runCheckConfig files path

end Command

namespace Request

def run (files : Files) : Request → RunResult
  | version => { output := "antpath 0.4.0\n" }
  | command c => c.run files

end Request

namespace RunResult

/-- The result of a call with wrong arguments. -/
def wrongCall : RunResult where
  errors := "usage: antpath <parse|generate|walk|check-config> [arguments]\n"
  exitCode := 2

end RunResult

end TurtleChain
