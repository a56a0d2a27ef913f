import TurtleChain.Chain.SyntaxError
import TurtleChain.Curve.Family
import TurtleChain.Curve.Parameter
import TurtleChain.Rewriting.Table

/-! Why a curve could not be built. -/

namespace TurtleChain

inductive CurveError where
  | invalid (error : InvalidParameter)
  /-- A rule of the family is no chain. -/
  | unreadable (family : Family) (rule : String) (error : SyntaxError)
  | table (error : RewriteError)

namespace CurveError

def message : CurveError → String
  | invalid e => e.message
  | unreadable family rule e =>
    "Authored rule " ++ rule ++ " for " ++ family.name ++ " does not parse: " ++ e.message
  | table e => e.message

end CurveError

end TurtleChain
