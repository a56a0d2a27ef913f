import TurtleChain.ESequence.ChaCha
import TurtleChain.Number.Binary64

/-! Jitter: the multiplier that stretches each block of an E-sequence. -/

namespace TurtleChain

/-- A stream of random words for each seed. -/
abbrev RandomWords := UInt64 → Nat → UInt64

/-- The multiplier of each block, by the number of the block. -/
abbrev Jitter := Nat → Float

namespace Jitter

/-- The same multiplier for every block. -/
def fixed (multiplier : Float) : Jitter :=
  fun _ => multiplier

/-- The number in `[0, 1)` that the upper 53 bits of a random word stand for. -/
def unitInterval (word : UInt64) : Float :=
  Binary64.nearest false (word >>> 11).toNat (Nat.pow 2 53)

/-- The multiplier that a random word draws: 0.8, 0.9 or 1, the middle one twice as likely as each of the others. -/
def drawn (word : UInt64) : Float :=
  let step := Binary64.roundToInt (2 * unitInterval word)
  (8 + Float.ofInt step) / 10

/-- One word of the seed's stream for each block. -/
def seededBy (random : RandomWords) (seed : UInt64) : Jitter :=
  fun n => drawn (random seed n)

def seeded (seed : UInt64) : Jitter :=
  seededBy ChaCha.words seed

end Jitter

end TurtleChain
