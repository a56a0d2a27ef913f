import TurtleChain.Chain.Operation

/-! Rules in turtle notation: `L` and `R` draw a segment, `+` and `-` turn one way and the other. -/

namespace TurtleChain.TurtleRule

/-- The turn that a run of `+` and `-` adds up to, if they do not cancel. -/
def turn (angle : Float) (turns : Int) : List String :=
  if turns = 0 then [] else ["T:" ++ numberText (Float.ofInt turns * angle)]

/-- The operations of a rule, behind `turns` turns not yet written. -/
def steps (side : String) (angle : Float) (turns : Int) : List Char → List String
  | [] => turn angle turns
  | c :: cs =>
    if c = '+' then steps side angle (turns + 1) cs
    else if c = '-' then steps side angle (turns - 1) cs
    else if c = 'L' then turn angle turns ++ ("DL:" ++ side) :: steps side angle 0 cs
    else if c = 'R' then turn angle turns ++ ("DR:" ++ side) :: steps side angle 0 cs
    else steps side angle turns cs

/-- The chain of a rule. Each run of turns becomes one turn, and other characters are passed over. -/
def chainText (side : String) (angle : Float) (rule : String) : String :=
  "|".intercalate (steps side angle 0 rule.toList)

end TurtleChain.TurtleRule
