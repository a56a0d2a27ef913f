import TurtleChain.Walk.ActionMap

/-! Walking: the operations of a sequence applied one by one to a context. An operation without an action,
or with an argument that its action cannot use, is dropped and the walk goes on. -/

namespace TurtleChain

/-- What became of one operation. -/
structure Outcome where
  operation : Operation
  /-- `none` if the name is not in the action map. -/
  kind : Option ActionKind
  moved : Moved
  /-- Why the action could not use the argument. -/
  error : Option ActionError

namespace Outcome

/-- The operation was dropped. -/
def skipped (outcome : Outcome) : Bool :=
  outcome.kind.isNone || outcome.error.isSome

end Outcome

structure Tally where
  steps : Nat := 0
  moves : Nat := 0
  skipped : Nat := 0
  deriving DecidableEq

namespace Tally

/-- Counts one more step. -/
def count (tally : Tally) (outcome : Outcome) : Tally :=
  let tally := { tally with steps := tally.steps + 1 }
  let tally := if outcome.moved.isSome then { tally with moves := tally.moves + 1 } else tally
  if outcome.skipped then { tally with skipped := tally.skipped + 1 } else tally

def ofOutcomes (outcomes : List Outcome) : Tally :=
  outcomes.foldl count {}

end Tally

/-- Applies one operation. -/
def applyOperation {C : Type} (map : ActionMap C) (pace : Pace) (op : Operation) (context : C) :
    Outcome × C :=
  match map.get? op.name with
  | none => (⟨op, none, none, none⟩, context)
  | some binding =>
    match binding.action op.arg pace context with
    | (.ok moved, context) => (⟨op, some binding.kind, moved, none⟩, context)
    | (.error e, context) => (⟨op, some binding.kind, none, some e⟩, context)

/-- The operations that are left, and how many of those that move are done. -/
structure Walker (C : Type) where
  map : ActionMap C
  queue : Sequence
  pace : Pace := {}
  movesTotal : Nat
  movesDone : Nat := 0

namespace Walker

variable {C : Type}

/-- The number of operations that move. -/
def countMoves (map : ActionMap C) (ops : Sequence) : Nat :=
  ops.countP fun op => ActionMap.isMovement map op.name

def ofSequence (map : ActionMap C) (ops : Sequence) : Walker C where
  map := map
  queue := ops
  movesTotal := countMoves map ops

def withPace (walker : Walker C) (pace : Pace) : Walker C :=
  { walker with pace := pace }

def remaining (walker : Walker C) : Nat :=
  walker.queue.length

def finished (walker : Walker C) : Bool :=
  walker.queue.isEmpty

/-- Applies the next operation; `none` when there is none. One that moves is counted, even if it is dropped. -/
def step (walker : Walker C) (context : C) : Option Outcome × Walker C × C :=
  match walker.queue with
  | [] => (none, walker, context)
  | op :: queue =>
    let (outcome, context) := applyOperation walker.map walker.pace op context
    let done :=
      if outcome.kind.any ActionKind.isMovement then walker.movesDone + 1 else walker.movesDone
    (some outcome, { walker with queue := queue, movesDone := done }, context)

theorem remaining_of_step {walker next : Walker C} {context context' : C} {outcome : Outcome}
    (h : walker.step context = (some outcome, next, context')) : next.remaining < walker.remaining := by
  unfold step at h
  split at h
  · cases h
  · next op queue hqueue =>
      cases h
      rw [remaining, remaining, hqueue]
      exact Nat.lt_succ_self queue.length

/-- Steps until there is none left, the outcomes put in front of the reversed `found`. -/
def runFrom (walker : Walker C) (context : C) (found : List Outcome) : List Outcome × Walker C × C :=
  match _ : walker.step context with
  | (none, walker, context) => (found.reverse, walker, context)
  | (some outcome, walker, context) => walker.runFrom context (outcome :: found)
termination_by walker.remaining
decreasing_by exact remaining_of_step ‹_›

/-- Applies all operations that are left. -/
def run (walker : Walker C) (context : C) : List Outcome × Walker C × C :=
  walker.runFrom context []

/-- The share of moving operations that are done, one if there are none. -/
def progress (walker : Walker C) : Float :=
  if walker.movesTotal = 0 then 1
  else Float.ofNat walker.movesDone / Float.ofNat walker.movesTotal

end Walker

end TurtleChain
