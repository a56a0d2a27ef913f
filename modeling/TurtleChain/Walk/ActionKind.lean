/-! The kinds of action that operations stand for. -/

namespace TurtleChain

inductive ActionKind where
  | main
  | draw
  | move
  | turn
  | scale
  | color
  | none
  deriving DecidableEq

namespace ActionKind

def name : ActionKind → String
  | main => "main"
  | draw => "draw"
  | move => "move"
  | turn => "turn"
  | scale => "scale"
  | color => "color"
  | none => "none"

def ofName? (text : String) : Option ActionKind :=
  [main, draw, move, turn, scale, color, none].find? fun kind => kind.name == text

/-- Actions of this kind change the position, and count towards progress. -/
def isMovement : ActionKind → Bool
  | main | draw | move => true
  | _ => false

end ActionKind

end TurtleChain
