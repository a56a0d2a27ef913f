/-! Sums and products of machine words, given only if the width holds them. -/

namespace TurtleChain

variable {width : Nat}

def checkedAdd (x y : BitVec width) : Option (BitVec width) :=
  if x.uaddOverflow y then none else some (x + y)

def checkedMul (x y : BitVec width) : Option (BitVec width) :=
  if x.umulOverflow y then none else some (x * y)

/-- The number that the word stands for, or the error if there is no word. -/
def numberOr {ε : Type} (e : ε) : Option (BitVec width) → Except ε Nat
  | some x => .ok x.toNat
  | none => .error e

end TurtleChain
