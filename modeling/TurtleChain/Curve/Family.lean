/-! The curve families. -/

namespace TurtleChain

inductive Family where
  | hilbert
  /-- The quadratic Gosper curve. -/
  | eCurve
  /-- The arrowhead curve. -/
  | sierpinski
  | zigzag
  /-- E-sequences of any shape. -/
  | generic
  deriving DecidableEq

namespace Family

def name : Family → String
  | hilbert => "hilbert"
  | eCurve => "ecurve"
  | sierpinski => "sierpinski"
  | zigzag => "zigzag"
  | generic => "generic"

/-- The number of passes that shows the curve well. -/
def defaultIterations : Family → Nat
  | hilbert => 4
  | eCurve => 1
  | sierpinski => 6
  | zigzag => 2
  | generic => 1

/-- The family of exactly this name. -/
def ofName? (text : String) : Option Family :=
  [hilbert, eCurve, sierpinski, zigzag, generic].find? fun family => family.name == text

/-- The family that a user means: any case of the ASCII letters, and a few other names. -/
def ofText? (text : String) : Option Family :=
  let lower := String.ofList (text.toList.map Char.toLower)
  if lower = "e-curve" then some eCurve
  else if lower = "arrowhead" then some sierpinski
  else if lower = "esequence" then some generic
  else ofName? lower

end Family

end TurtleChain
