import TurtleChain.Config.Basic
import TurtleChain.Curve.CurveError

/-! What can go wrong in a run, from reading its input to generating. -/

namespace TurtleChain

inductive Failure where
  | syntaxError (error : SyntaxError)
  | build (error : CurveError)
  | rewrite (error : RewriteError)
  | config (error : ConfigError)

namespace Failure

def message : Failure → String
  | syntaxError e => "Parse error: " ++ e.message
  | build e => "Build error: " ++ e.message
  | rewrite e => "Rewrite error: " ++ e.message
  | config e => "Config error: " ++ e.message

end Failure

end TurtleChain
