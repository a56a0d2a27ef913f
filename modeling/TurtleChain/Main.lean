import TurtleChain.Command.Run
import TurtleChain.Command.Trace

/-! The program: reads the environment and the configuration file, runs the command, and writes what it
left. -/

open TurtleChain

namespace TurtleChain.Program

private def reason : IO.Error → String
  | .noFileOrDirectory .. => "No such file or directory (os error 2)"
  | .permissionDenied .. => "Permission denied (os error 13)"
  | .inappropriateType _ code details | .invalidArgument _ code details =>
    details ++ " (os error " ++ toString code ++ ")"
  | e => e.toString

private def readFile (path : String) : IO (Except String ByteArray) := do
  try
    return .ok (← IO.FS.readBinFile path)
  catch e => return .error (reason e)

private def filesOf (request : Request) : IO Files := do
  match request with
  | .version => return fun _ => .error ""
  | .command c =>
    match c.file? with
    | none => return fun _ => .error ""
    | some path =>
      let content ← readFile path
      return fun _ => content

/-- Writes a result, its events first as lines of JSON, and answers with its exit code. -/
def finish (result : RunResult) : IO UInt32 := do
  if LogEvent.areWanted (← IO.getEnv "ANTPATH_LOG_FORMAT") then
    for event in result.events do
      IO.eprintln event.toJson.compact
  IO.print result.output
  IO.eprint result.errors
  return result.exitCode.toUInt32

/-- The second program, which traces the reading of a chain. -/
def traceMain (args : List String) : IO UInt32 :=
  finish (Trace.run args)

end TurtleChain.Program

def main (args : List String) : IO UInt32 := do
  match Request.ofArgs? (← IO.getEnv "ANTPATH_CONFIG") args with
  | none => Program.finish .wrongCall
  | some request => Program.finish (request.run (← Program.filesOf request))
