import TurtleChain.Chain.Printer
import TurtleChain.Command.Run

/-! A trace of reading one chain: its tokens, its operations, and its canonical text. -/

namespace TurtleChain.Trace

private def lines (ls : List String) : String :=
  String.join (ls.map (· ++ "\n"))

def usage : String :=
  lines ["Usage: cargo run --bin trace_parser '<chain>'", "", "Example:",
    "  cargo run --bin trace_parser 'T:-90|DL:4|T:90|'"]

private def bar (c : Char) (length : Nat) : String :=
  String.ofList (List.replicate length c)

private def rule : String := bar '─' 61

private def banner : String :=
  lines ["╔" ++ bar '═' 63, "║ CHAIN PARSER TRACER", "╚" ++ bar '═' 63, ""]

/-- The span of a token, each end four characters wide at least and the dots aligned. -/
private def spanText (t : Token) : String :=
  let stop := toString t.stop
  Sequence.padLeft 4 t.start ++ ".." ++ stop ++ bar ' ' (4 - stop.length)

def tokenLine (t : Token) : String :=
  let mark := match t.kind with
    | .error _ => "❌"
    | _ => "  "
  mark ++ " " ++ spanText t ++ " " ++ t.kind.render ++ "\n"

private def tokenSection (ts : List Token) : String :=
  lines ["🔍 TOKENS:", rule] ++ String.join (ts.map tokenLine) ++ "\n"

private def canonicalText (source : String) : String :=
  match canonical source with
  | .ok text => text
  | .error e => "❌ Round-trip failed: " ++ e.message

private def succeeded (source : String) (ops : Sequence) : String :=
  ops.listing ++ lines ["", "🔄 ROUND-TRIP TEST:", rule, canonicalText source, "",
    "✅ Parse succeeded! (" ++ toString ops.length ++ " operations)"]

/-- The message, the chain, and a mark below the character where the error is. -/
private def failed (source : String) (e : SyntaxError) : String :=
  lines ["❌ " ++ e.message, source, bar ' ' e.offset ++ "^"]

/-- The trace of a chain. -/
def ofSource (source : String) : RunResult :=
  let found := tokens source
  let before := banner ++ lines ["📝 INPUT:", source, ""] ++ tokenSection found ++ lines ["🌳 OPERATIONS:", rule]
  match (Parser.parse { tokens := found }).1 with
  | .ok ops => { output := before ++ succeeded source ops }
  | .error e => { output := before ++ failed source e, exitCode := 1 }

/-- Traces the first argument. -/
def run : List String → RunResult
  | [] => { errors := usage, exitCode := 1 }
  | source :: _ => ofSource source

end TurtleChain.Trace
