import TurtleChain.Number.Range
import TurtleChain.Walk.Color
import TurtleChain.Walk.ActionMap

/-! The ant: a turtle that draws on the cells of a grid. -/

namespace TurtleChain

/-- Sine and cosine of angles in radians. -/
structure Trigonometry where
  sin : Float → Float
  cos : Float → Float

/-- Those of the platform. -/
def Trigonometry.library : Trigonometry where
  sin := Float.sin
  cos := Float.cos

/-- Headings are in degrees, zero along the first axis and positive towards the second. -/
structure Ant where
  position : Cell
  angle : Float := 0
  /-- What draw distances are multiplied by. -/
  scale : Float := 1
  /-- The visited cells, the latest one first. -/
  trail : List Cell
  stroke : Color := .c1
  alive : Bool := true
  /-- The number of moves so far. -/
  life : Nat := 0
  /-- The number of moves after which the ant stops. -/
  maxLife : Option Nat := none

/-- The number in the range of grid coordinates, 64 bits with a sign, that is nearest. -/
def saturate (n : Int) : Int :=
  max (-int64Limit) (min n (int64Limit - 1))

/-- The displacement along an axis, to the nearest cell. -/
def cellsOf (x : Float) : Int :=
  if x.isNaN then 0
  else if x.isFinite then saturate (Binary64.roundToInt x)
  else saturate (if Binary64.isNegative x then -int64Limit else int64Limit)

namespace Ant

/-- An ant at its first cell. -/
def start (x y : Int) : Ant where
  position := ⟨x, y⟩
  trail := [⟨x, y⟩]

/-- The visited cells in order. -/
def path (ant : Ant) : List Cell :=
  ant.trail.reverse

/-- An ant that may move this often; a life of no moves is over. -/
def limitLife (ant : Ant) (maxLife : Nat) : Ant :=
  { ant with maxLife := some maxLife, alive := decide (0 < maxLife) }

def headingInRadians (ant : Ant) : Float :=
  ant.angle * (3.141592653589793 / 180)

/-- The cell at a distance along the heading. Coordinates stop at the end of their range. -/
def target (trig : Trigonometry) (ant : Ant) (distance : Float) : Cell where
  x := saturate (ant.position.x + cellsOf (distance * trig.cos ant.headingInRadians))
  y := saturate (ant.position.y + cellsOf (distance * trig.sin ant.headingInRadians))

/-- Puts the ant on another cell. -/
def moveTo (ant : Ant) (cell : Cell) : Ant :=
  let life := ant.life + 1
  let ended := (ant.maxLife.map fun most => decide (most ≤ life)).getD false
  { ant with
    position := cell
    trail := cell :: ant.trail
    life := life
    alive := ant.alive && !ended }

/-- Moves along the heading, unless the ant is at the end of its life or would stay on its cell. -/
def advanceBy (trig : Trigonometry) (ant : Ant) (distance : Float) : Moved × Ant :=
  if !ant.alive || !distance.isFinite then (none, ant)
  else
    let cell := ant.target trig distance
    if cell = ant.position then (none, ant) else (some cell, ant.moveTo cell)

def advance (ant : Ant) (distance : Float) : Moved × Ant :=
  ant.advanceBy .library distance

/-- The distance that a draw step goes. -/
def drawDistance (pace : Pace) (scale amount : Float) : Float :=
  match pace.distance with
  | some distance => if distance != 0 then distance * amount else amount * scale
  | none => amount * scale

/-- Applies the number in the argument; without one the ant stays as it is. -/
def withNumber (f : Float → Ant → Moved × Ant) (arg : Option Arg) (ant : Ant) :
    Except ActionError Moved × Ant :=
  match requiredNumber arg with
  | .error e => (.error e, ant)
  | .ok x => let (moved, ant) := f x ant; (.ok moved, ant)

def draw (trig : Trigonometry) : Action Ant := fun arg pace ant =>
  withNumber (fun amount ant => ant.advanceBy trig (drawDistance pace ant.scale amount)) arg ant

def turn : Action Ant := fun arg _ ant =>
  withNumber (fun degrees ant => (none, { ant with angle := ant.angle + degrees })) arg ant

def rescale : Action Ant := fun arg _ ant =>
  withNumber (fun factor ant => (none, { ant with scale := ant.scale * factor })) arg ant

/-- The colour that an argument names. -/
def colorArg : Option Arg → Except ActionError Color
  | none => .error .missingArgument
  | some (.ident name) | some (.text name) =>
    match Color.ofName? name with
    | some tag => .ok tag
    | none => .error (.unknownColor name)
  | some arg => .error (.unknownColor arg.render)

def color : Action Ant := fun arg _ ant =>
  match colorArg arg with
  | .error e => (.error e, ant)
  | .ok tag => (.ok none, { ant with stroke := tag })

def noop : Action Ant := fun _ _ ant => (.ok none, ant)

/-- What the ant does: `D`, `D2`, `DL` and `DR` draw, `T` turns, `S` scales, `C` sets the colour,
and `A` and `B` only stand for what replaces them. -/
def actionsBy (trig : Trigonometry) : ActionMap Ant :=
  let map : ActionMap Ant := NameMap.empty
  let map := ActionMap.bind map "D" .main (draw trig)
  let map := ActionMap.bind map "T" .turn turn
  let map := ActionMap.bind map "S" .scale rescale
  let map := ActionMap.bind map "C" .color color
  let map := ActionMap.bind map "A" .none noop
  let map := ActionMap.bind map "B" .none noop
  ["D2", "DL", "DR"].foldl (fun map name => (ActionMap.alias? map name "D").getD map) map

def actions : ActionMap Ant :=
  actionsBy .library

end Ant

end TurtleChain
