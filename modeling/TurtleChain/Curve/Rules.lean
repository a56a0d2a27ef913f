import TurtleChain.Chain.Parser
import TurtleChain.Curve.CurveError
import TurtleChain.Curve.TurtleRule
import TurtleChain.ESequence.Layout

/-! The seed and the rules of each family. They are written as chains, with the side length put in, and
read when they are asked for. -/

namespace TurtleChain

/-- The names of operations that draw. -/
def drawNames : List String :=
  ["M", "D", "D2", "DL", "DR"]

namespace Family

def checkSide (side : Float) : Except CurveError String :=
  match Parameter.sideLength.checkLength side with
  | .ok () => .ok (numberText side)
  | .error e => .error (.invalid e)

def readRule (family : Family) (rule chain : String) : Except CurveError Sequence :=
  (parse chain).mapError (.unreadable family rule)

/-- The chain that generation zero is read from. -/
def seedChain (family : Family) (side : Float) : Except CurveError String := do
  let s ← checkSide side
  return match family with
    | hilbert => "A"
    | eCurve => "DL:0"
    | sierpinski => "DR:0"
    | zigzag =>
      "T:45|DL:" ++ s ++ "|T:-90|DR:" ++ s ++ "|T:90|DL:" ++ s ++ "|T:-90|DR:" ++ s ++ "|T:45"
    | generic => "D:0"

/-- Generation zero. -/
def seed (family : Family) (side : Float) : Except CurveError Sequence := do
  let chain ← family.seedChain side
  readRule family "seed" chain

/-- The rules of a family that is given by chains. -/
def tableOfChains (family : Family) (chains : List (String × String)) : Except CurveError Table :=
  chains.foldlM (fun (table : Table) (name, chain) => do
    let sequence ← readRule family name chain
    (table.insert ⟨name, sequence⟩).mapError .table) Table.empty

/-- Each of the two curves scales down, draws three segments around four smaller curves, and scales up. -/
def hilbertTable (side : Float) : Except CurveError Table := do
  let s ← checkSide side
  tableOfChains hilbert
    [("A", "S:0.25|T:-90|B|D:" ++ s ++ "|T:90|A|D:" ++ s ++ "|A|T:90|D:" ++ s ++ "|B|T:-90|S:4|"),
     ("B", "S:0.25|T:90|A|D:" ++ s ++ "|T:-90|B|D:" ++ s ++ "|B|T:-90|D:" ++ s ++ "|A|T:90|S:4|")]

/-- Rules for both hands in turtle notation, each between two changes of scale. -/
def turtleTable (family : Family) (side angle shrink grow : Float) (left right : String) :
    Except CurveError Table := do
  let s ← checkSide side
  let wrap (rule : String) : String :=
    "S:" ++ numberText shrink ++ "|" ++ TurtleRule.chainText s angle rule ++ "|S:" ++ numberText grow
  tableOfChains family [("DL", wrap left), ("DR", wrap right)]

/-- One rule, which replaces every `D` by an E-sequence. -/
def genericTable (p : ESequenceShape) (jitter : Jitter) : Except CurveError Table := do
  let sequence ← p.sequence jitter
  (Table.ofRules [⟨"D", sequence⟩]).mapError .table

/-- The replacement table of a family with segments of the given side. -/
def table (family : Family) (side : Float) : Except CurveError Table :=
  match family with
  | hilbert => hilbertTable side
  | eCurve =>
    turtleTable eCurve side 90 0.2 5 "LL+R+R-L-L+R+RL-R-LLR+L-R-LL-R+LR+R+L-L-RR+"
      "-LL+R+R-L-LR-L+RR+L+R-LRR+L+RL-L-R+R+L-L-RR"
  | sierpinski => turtleTable sierpinski side 60 0.5 2 "R-L-R" "L+R+L"
  | zigzag =>
    turtleTable zigzag side 45 0.7071067811865476 1.4142135623730951 "+L--R+" "-L++R-"
  | generic => genericTable (.scaled side) (.fixed 1)

end Family

end TurtleChain
