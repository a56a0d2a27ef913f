/-! The colours an ant draws in. -/

namespace TurtleChain

inductive Color where
  | c1
  | c2
  | c3
  | c4
  deriving DecidableEq

namespace Color

def name : Color → String
  | c1 => "c1"
  | c2 => "c2"
  | c3 => "c3"
  | c4 => "c4"

/-- Green, yellow, purple and red, as style sheets write them. -/
def palette : Color → String
  | c1 => "hsl(100,80%,40%)"
  | c2 => "hsl(60,90%,40%)"
  | c3 => "hsl(280,80%,40%)"
  | c4 => "hsl(0,80%,50%)"

def ofName? (text : String) : Option Color :=
  [c1, c2, c3, c4].find? fun tag => tag.name == text

end Color

end TurtleChain
