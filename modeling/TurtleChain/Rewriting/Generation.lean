import TurtleChain.Rewriting.Table

/-! Rewriting a sequence. One pass replaces every operation that has a rule, whatever its argument, and
copies the others; what it puts in is not looked at again until the next pass. -/

namespace TurtleChain.Table

/-- What one operation becomes in a pass. -/
def replacement (table : Table) (op : Operation) : Sequence :=
  (table.get? op.name).getD [op]

/-- One pass. -/
def rewrite (table : Table) (ops : Sequence) : Sequence :=
  ops.flatMap table.replacement

/-- The length of the next pass, without building it. -/
def rewriteLength (table : Table) (ops : Sequence) : Nat :=
  ops.foldl (fun total op => total + ((table.get? op.name).map List.length).getD 1) 0

/-- The sequence after the given number of passes. -/
def generation (table : Table) (seed : Sequence) : Nat → Sequence
  | 0 => seed
  | n + 1 => table.rewrite (table.generation seed n)

/-- Generations that are made one at a time: the last one that was given, or the seed as long as there is none. -/
structure Generations where
  table : Table
  current : Sequence
  started : Bool := false

/-- The next generation; there always is one. -/
def Generations.next (items : Generations) : Sequence × Generations :=
  let current := if items.started then items.table.rewrite items.current else items.current
  (current, { items with current := current, started := true })

/-- As many generations as are asked for. -/
def Generations.take (items : Generations) : Nat → List Sequence
  | 0 => []
  | n + 1 =>
    let (ops, items) := items.next
    ops :: items.take n

/-- The first generations, the seed in front. -/
def generations (table : Table) (seed : Sequence) (n : Nat) : List Sequence :=
  Generations.take { table := table, current := seed } n

/-- Passes from `ops` on, which is the generation in front of `number`, as many as are left. -/
def expandFrom (table : Table) (limit number : Nat) (ops : Sequence) :
    Nat → Except RewriteError Sequence
  | 0 => .ok ops
  | depth + 1 =>
    let length := table.rewriteLength ops
    if limit < length then .error (.tooLong number length limit)
    else expandFrom table limit (number + 1) (table.rewrite ops) depth

/-- The generation at the given depth. Fails at the first generation that is over the limit, before it
is built. -/
def expand (table : Table) (limit : Nat) (seed : Sequence) (depth : Nat) : Except RewriteError Sequence :=
  if limit < seed.length then .error (.tooLong 0 seed.length limit)
  else expandFrom table limit 1 seed depth

end TurtleChain.Table
