/-! The range of integers of 64 bits with a sign. -/

namespace TurtleChain

/-- These integers start at minus the limit and stop below it. -/
abbrev int64Limit : Int := 9223372036854775808

def fitsInt64 (n : Int) : Bool :=
  decide (-int64Limit ≤ n) && decide (n < int64Limit)

end TurtleChain
