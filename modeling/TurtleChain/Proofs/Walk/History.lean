import Mathlib.Data.List.Chain
import TurtleChain.Proofs.Walk.Deeds

/-! What an ant keeps track of. Whatever happens to it, an ant stays where it is or moves to another cell, and only a
move is added to its trail, counted and reported. After any run its trail and its count therefore agree with where it
is and with what was reported. -/

namespace TurtleChain

namespace Ant

/-- What may become of an ant, and what is reported of it. -/
inductive Effect (ant : Ant) : Moved → Ant → Prop where
  | stay {ant' : Ant} (hposition : ant'.position = ant.position) (htrail : ant'.trail = ant.trail)
      (hlife : ant'.life = ant.life) : Effect ant none ant'
  | move {cell : Cell} (halive : ant.alive = true) (hcell : cell ≠ ant.position) :
      Effect ant (some cell) (ant.moveTo cell)

/-- What can happen to an ant from outside. -/
inductive Event where
  | limitLife (most : Nat)
  | advance (distance : Float)
  | dispatch (op : Operation) (pace : Pace)

/-- The new position, if there is one, and the ant behind the event. -/
def Event.apply (trig : Trigonometry) (event : Event) (ant : Ant) : Moved × Ant :=
  match event with
  | limitLife most => (none, ant.limitLife most)
  | advance distance => ant.advanceBy trig distance
  | dispatch op pace =>
    let done := applyOperation (actionsBy trig) pace op ant
    (done.1.moved, done.2)

section

variable (trig : Trigonometry)

/-- The ant behind the events. -/
def after (events : List Event) (ant : Ant) : Ant :=
  events.foldl (fun ant event => (event.apply trig ant).2) ant

/-- What is reported of the events, one after another. -/
def reports : List Event → Ant → List Moved
  | [], _ => []
  | event :: events, ant => (event.apply trig ant).1 :: reports events (event.apply trig ant).2

/-! ### One event -/

theorem Acts.effect {ant ant' : Ant} {moved : Moved} (h : ant.Acts moved ant') : ant.Effect moved ant' := by
  cases h with
  | adjust angle scale stroke => exact .stay rfl rfl rfl
  | move halive hcell => exact .move halive hcell

theorem Event.effect (event : Event) (ant : Ant) : ant.Effect (event.apply trig ant).1 (event.apply trig ant).2 := by
  cases event with
  | limitLife most => exact .stay rfl rfl rfl
  | advance distance => exact (acts_advanceBy trig ant distance).effect
  | dispatch op pace =>
      dsimp only [Event.apply]
      exact (acts_applyOperation trig pace op ant).effect

end

/-! ### Runs -/

/-- The trail, the position and the count of an ant that was put on `origin` and has reported so many moves. -/
structure Consistent (ant : Ant) (origin : Cell) (moves : Nat) : Prop where
  head_path : ant.path.head? = some origin
  last_path : ant.path.getLast? = some ant.position
  length_path : ant.path.length = ant.life + 1
  isChain_path : ant.path.IsChain (· ≠ ·)
  life : ant.life = moves

variable {ant ant' : Ant} {origin : Cell} {moves : Nat} {moved : Moved}

theorem consistent_start (x y : Int) : (start x y).Consistent ⟨x, y⟩ 0 :=
  ⟨rfl, rfl, rfl, List.isChain_singleton _, rfl⟩

theorem path_moveTo (ant : Ant) (cell : Cell) : (ant.moveTo cell).path = ant.path ++ [cell] :=
  List.reverse_cons

theorem Effect.position_of_moved {cell : Cell} (h : ant.Effect (some cell) ant') : ant'.position = cell := by
  cases h
  rfl

/-- An ant at the end of its life does not move. -/
theorem Effect.of_not_alive (h : ant.Effect moved ant') (halive : ant.alive = false) :
    ant'.position = ant.position ∧ ant'.path = ant.path ∧ ant'.life = ant.life := by
  cases h with
  | stay hposition htrail hlife => exact ⟨hposition, congrArg List.reverse htrail, hlife⟩
  | move hmoves hcell =>
      rw [halive] at hmoves
      cases hmoves

theorem Effect.life_eq (h : ant.Effect moved ant') : ant'.life = ant.life + [moved].countP Option.isSome := by
  cases h with
  | stay hposition htrail hlife => exact hlife
  | move halive hcell => rfl

theorem Consistent.effect (hant : ant.Consistent origin moves) (h : ant.Effect moved ant') :
    ant'.Consistent origin (moves + [moved].countP Option.isSome) := by
  have hmoves := h.life_eq.trans (congrArg (· + [moved].countP Option.isSome) hant.life)
  cases h with
  | stay hposition htrail hlife =>
      have hpath : ant'.path = ant.path := congrArg List.reverse htrail
      refine ⟨?_, ?_, ?_, ?_, hmoves⟩
      · rw [hpath, hant.head_path]
      · rw [hpath, hant.last_path, hposition]
      · rw [hpath, hant.length_path, hlife]
      · rw [hpath]
        exact hant.isChain_path
  | @move cell halive hcell =>
      have hpath := path_moveTo ant cell
      refine ⟨?_, ?_, ?_, ?_, hmoves⟩
      · rw [hpath, List.head?_append, hant.head_path]
        rfl
      · rw [hpath, List.getLast?_append]
        rfl
      · rw [hpath, List.length_append, hant.length_path]
        rfl
      · rw [hpath, List.isChain_append]
        refine ⟨hant.isChain_path, List.isChain_singleton cell, ?_⟩
        intro last hlast next hnext
        rw [hant.last_path, Option.mem_some_iff] at hlast
        rw [List.head?_cons, Option.mem_some_iff] at hnext
        rw [← hlast, ← hnext]
        exact hcell.symm

/-- Behind any events the ant is consistent with the moves they reported. -/
theorem Consistent.after (trig : Trigonometry) (events : List Event) (h : ant.Consistent origin moves) :
    (after trig events ant).Consistent origin (moves + (reports trig events ant).countP Option.isSome) := by
  induction events generalizing ant moves with
  | nil => exact h
  | cons event events ih =>
      have hnext := ih (h.effect (event.effect trig ant))
      rwa [Nat.add_assoc, ← List.countP_append] at hnext

/-- A walk over a sequence counts the moves among its outcomes. -/
theorem Consistent.contextAfter (trig : Trigonometry) (pace : Pace) (ops : Sequence) (h : ant.Consistent origin moves) :
    (Walker.contextAfter (actionsBy trig) pace ops ant).Consistent origin
      (moves + (Walker.outcomes (actionsBy trig) pace ops ant).countP fun outcome => outcome.moved.isSome) := by
  induction ops generalizing ant moves with
  | nil => exact h
  | cons op ops ih =>
      have hnext := ih (h.effect (acts_applyOperation trig pace op ant).effect)
      rw [List.countP_singleton, Nat.add_assoc, Nat.add_comm (ite _ _ _)] at hnext
      rwa [Walker.contextAfter_cons, Walker.outcomes, List.countP_cons]

/-- In every state that an ant can get to, its path leads from its first cell to its position by as many moves as it
counts, all of them reported. A report is the new position, and an ant that is not alive stays where it is. -/
theorem consistent_after_events (trig : Trigonometry) (x y : Int) (events : List Event) :
    (Ant.after trig events (start x y)).Consistent ⟨x, y⟩
        ((reports trig events (start x y)).countP Option.isSome) ∧
      ∀ event : Event,
        let ant := Ant.after trig events (start x y)
        let (moved, ant') := event.apply trig ant
        (∀ cell, moved = some cell → ant'.position = cell) ∧
          (ant.alive = false → ant'.position = ant.position ∧ ant'.path = ant.path ∧ ant'.life = ant.life) := by
  constructor
  · have hrun := (consistent_start x y).after trig events
    rwa [Nat.zero_add] at hrun
  · intro event
    have heffect := event.effect trig (Ant.after trig events (start x y))
    refine ⟨fun cell hmoved => ?_, heffect.of_not_alive⟩
    apply Effect.position_of_moved
    rwa [← hmoved]

end Ant

end TurtleChain
