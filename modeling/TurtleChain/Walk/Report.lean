import TurtleChain.Json.Writer
import TurtleChain.Walk.Ant
import TurtleChain.Walk.Walker

/-! Walks of an ant over a sequence, and reports of them. -/

namespace TurtleChain

structure Walk.Options where
  maxLife : Option Nat := none
  distance : Option Float := none

/-- Where an ant ended up, and how it got there. -/
structure Walk.Report where
  position : Cell
  heading : Float
  pathLength : Nat
  tally : Tally
  alive : Bool

namespace Walk.Report

def toJson (report : Walk.Report) : Json :=
  .object [("position", .array [.ofInt report.position.x, .ofInt report.position.y]),
    ("heading", .ofFloat report.heading), ("path_length", .ofNat report.pathLength),
    ("steps", .ofNat report.tally.steps), ("moves", .ofNat report.tally.moves),
    ("skipped", .ofNat report.tally.skipped), ("alive", .bool report.alive)]

/-- The report for a reader, one line for each fact. -/
def render (report : Walk.Report) : String :=
  "position:    (" ++ toString report.position.x ++ ", " ++ toString report.position.y ++ ")\n" ++
  "heading:     " ++ plainText report.heading ++ "\n" ++
  "path length: " ++ toString report.pathLength ++ "\n" ++
  "steps:       " ++ toString report.tally.steps ++ " (" ++ toString report.tally.moves ++ " moves, " ++
    toString report.tally.skipped ++ " skipped)\n" ++
  (if report.alive then "" else "ant stopped at max life\n")

end Walk.Report

/-- A finished walk. -/
structure Walk where
  outcomes : List Outcome
  ant : Ant

namespace Walk

/-- A new ant at the origin. -/
def Options.ant (options : Walk.Options) : Ant :=
  match options.maxLife with
  | some most => (Ant.start 0 0).limitLife most
  | none => Ant.start 0 0

/-- Sends a new ant along the sequence. -/
def alongBy (trig : Trigonometry) (options : Walk.Options) (ops : Sequence) : Walk :=
  let walker := (Walker.ofSequence (Ant.actionsBy trig) ops).withPace ⟨options.distance⟩
  let (outcomes, _, ant) := walker.run options.ant
  ⟨outcomes, ant⟩

def along (options : Walk.Options) (ops : Sequence) : Walk :=
  alongBy .library options ops

def report (walk : Walk) : Walk.Report where
  position := walk.ant.position
  heading := walk.ant.angle
  pathLength := walk.ant.trail.length
  tally := .ofOutcomes walk.outcomes
  alive := walk.ant.alive

end Walk

end TurtleChain
