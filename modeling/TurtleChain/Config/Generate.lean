import TurtleChain.Curve.Rules
import TurtleChain.Failure
import TurtleChain.Rewriting.Generation

/-! The sequence that a configuration stands for. -/

namespace TurtleChain

namespace Config

/-- The multipliers of the E-sequence: those of the seed, or no jitter at all. -/
def jitterBy (random : RandomWords) (config : Config) : Jitter :=
  match config.jitterSeed with
  | some seed => .seededBy random seed
  | none => .fixed 1

/-- The replacement table; an E-sequence takes its shape and its jitter from the configuration. -/
def tableBy (random : RandomWords) (config : Config) : Except CurveError Table :=
  match config.family with
  | .generic => Family.genericTable config.eSequence (config.jitterBy random)
  | family => family.table config.sideLength

/-- A generated sequence and the table it came from. -/
structure Generated where
  table : Table
  sequence : Sequence

/-- The seed after the configured number of passes. -/
def generateBy (random : RandomWords) (config : Config) : Except Failure Generated := do
  let seed ← (config.family.seed config.sideLength).mapError .build
  let table ← (config.tableBy random).mapError .build
  let sequence ← (table.expand config.maxOperations seed config.passes).mapError .rewrite
  return ⟨table, sequence⟩

def generate (config : Config) : Except Failure Generated :=
  config.generateBy ChaCha.words

end Config

end TurtleChain
