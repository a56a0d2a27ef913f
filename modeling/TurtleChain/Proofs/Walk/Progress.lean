import TurtleChain.Proofs.Number.Share
import TurtleChain.Proofs.Walk.Run

/-! How far a walker has come. Whatever is done to its pace and to its context between the steps, a walker goes through
its sequence one operation at a time, its counters agree with what it has gone through, and its progress only grows. -/

namespace TurtleChain

namespace Walker

variable {C : Type}

/-- What can happen while a walker is under way. -/
inductive Event (C : Type) where
  | step
  | setPace (pace : Pace)
  | alter (change : C → C)

/-- The outcome, if an operation was applied, and the walker and its context behind the event. -/
def Event.apply (event : Event C) (state : Walker C × C) : Option Outcome × Walker C × C :=
  match event with
  | step => state.1.step state.2
  | setPace pace => (none, state.1.withPace pace, state.2)
  | alter change => (none, state.1, change state.2)

/-- The walker and its context behind the events. -/
def after (events : List (Event C)) (state : Walker C × C) : Walker C × C :=
  events.foldl (fun state event => (event.apply state).2) state

/-- The outcomes of the operations that were applied, in order. -/
def reports : List (Event C) → Walker C × C → List Outcome
  | [], _ => []
  | event :: events, state => (event.apply state).1.toList ++ reports events (event.apply state).2

/-! ### What a walker has gone through -/

/-- The walker has gone through the first `count` of the operations. -/
structure Passed (map : ActionMap C) (ops : Sequence) (count : Nat) (walker : Walker C) : Prop where
  map_eq : walker.map = map
  queue : walker.queue = ops.drop count
  count_le : count ≤ ops.length
  movesTotal : walker.movesTotal = countMoves map ops
  movesDone : walker.movesDone = countMoves map (ops.take count)

theorem passed_ofSequence (map : ActionMap C) (ops : Sequence) : Passed map ops 0 (ofSequence map ops) :=
  ⟨rfl, rfl, Nat.zero_le _, rfl, rfl⟩

section

variable {map : ActionMap C} {ops : Sequence} {count : Nat} {walker : Walker C} (h : Passed map ops count walker)

include h

theorem Passed.remaining : walker.remaining = ops.length - count := by
  rw [Walker.remaining, h.queue, List.length_drop]

theorem Passed.movesDone_add : walker.movesDone + countMoves map walker.queue = walker.movesTotal := by
  rw [h.movesDone, h.queue, h.movesTotal, ← countMoves_append, List.take_append_drop]

theorem Passed.step_of_end (hcount : count = ops.length) (context : C) :
    walker.step context = (none, walker, context) := by
  have hqueue : walker.queue = [] := by
    rw [h.queue, hcount, List.drop_length]
  unfold step
  rw [hqueue]

/-- The next operation is applied. -/
theorem Passed.step_of_lt (hcount : count < ops.length) (context : C) :
    ∃ outcome walker' context', walker.step context = (some outcome, walker', context') ∧
      outcome.operation = ops[count] ∧ Passed map ops (count + 1) walker' := by
  obtain ⟨map', queue, pace, total, done⟩ := walker
  obtain ⟨hmap, hqueue, -, htotal, hdone⟩ := h
  dsimp only at hmap hqueue htotal hdone
  rw [hmap, hqueue, List.drop_eq_getElem_cons hcount]
  refine ⟨_, _, _, step_mk .., operation_applyOperation _ _ _ _, ⟨rfl, rfl, hcount, htotal, ?_⟩⟩
  show done + countMoves map [ops[count]] = countMoves map (ops.take (count + 1))
  rw [hdone, ← countMoves_append, List.take_append_getElem hcount]

theorem Passed.apply (event : Event C) (context : C) :
    (event.apply (walker, context)).1.toList.map Outcome.operation =
        (ops.drop count).take (event.apply (walker, context)).1.toList.length ∧
      Passed map ops (count + (event.apply (walker, context)).1.toList.length)
        (event.apply (walker, context)).2.1 := by
  cases event with
  | step =>
      rcases h.count_le.lt_or_eq with hlt | heq
      · obtain ⟨outcome, walker', context', hstep, hoperation, hnext⟩ := h.step_of_lt hlt context
        dsimp only [Event.apply]
        rw [hstep, List.drop_eq_getElem_cons hlt]
        exact ⟨congrArg ([·]) hoperation, hnext⟩
      · dsimp only [Event.apply]
        rw [h.step_of_end heq]
        exact ⟨rfl, h⟩
  | setPace pace => exact ⟨rfl, h.map_eq, h.queue, h.count_le, h.movesTotal, h.movesDone⟩
  | alter change => exact ⟨rfl, h⟩

end

/-- Events take a walker on by the operations they report, in the order of the sequence. -/
theorem Passed.after {map : ActionMap C} {ops : Sequence} {count : Nat} (events : List (Event C))
    {state : Walker C × C} (h : Passed map ops count state.1) :
    (reports events state).map Outcome.operation = (ops.drop count).take (reports events state).length ∧
      Passed map ops (count + (reports events state).length) (after events state).1 := by
  induction events generalizing count state with
  | nil => exact ⟨rfl, h⟩
  | cons event events ih =>
      obtain ⟨hoperation, hnext⟩ := h.apply event state.2
      obtain ⟨hoperations, hlast⟩ := ih hnext
      rw [reports, List.map_append, List.length_append, List.take_add, List.drop_drop, hoperations, hoperation,
        ← Nat.add_assoc]
      exact ⟨rfl, hlast⟩

/-! ### Going through all that is left -/

/-- As many steps as operations are left make a run. -/
theorem steps_eq_run (map : ActionMap C) (ops : Sequence) (pace : Pace) (total done : Nat) (context : C) :
    reports (List.replicate ops.length .step) (⟨map, ops, pace, total, done⟩, context) =
        outcomes map pace ops context ∧
      Walker.after (List.replicate ops.length .step) (⟨map, ops, pace, total, done⟩, context) =
        (⟨map, [], pace, total, done + countMoves map ops⟩, contextAfter map pace ops context) := by
  induction ops generalizing done context with
  | nil => exact ⟨rfl, rfl⟩
  | cons op ops ih =>
      obtain ⟨hreports, hafter⟩ := ih (done + countMoves map [op]) (applyOperation map pace op context).2
      rw [Nat.add_assoc, ← countMoves_append] at hafter
      have hstep : (Event.step : Event C).apply (⟨map, op :: ops, pace, total, done⟩, context) = _ :=
        step_mk map ops pace total done context op
      rw [List.length_cons, List.replicate_succ, reports, Walker.after, List.foldl_cons, hstep]
      exact ⟨congrArg (_ :: ·) hreports, hafter⟩

theorem Passed.run {map : ActionMap C} {ops : Sequence} {count : Nat} {walker : Walker C}
    (h : Passed map ops count walker) (context : C) :
    reports (List.replicate walker.remaining .step) (walker, context) = (walker.run context).1 ∧
      Walker.after (List.replicate walker.remaining .step) (walker, context) = (walker.run context).2 ∧
      (walker.run context).1.length = ops.length - count := by
  have hremaining := h.remaining
  obtain ⟨map', queue, pace, total, done⟩ := walker
  obtain ⟨hreports, hafter⟩ := steps_eq_run map' queue pace total done context
  rw [run_mk]
  exact ⟨hreports, hafter, (length_outcomes map' pace queue context).trans hremaining⟩

/-! ### Progress as a number -/

section

variable {walker walker' : Walker C} (hdone : walker.movesDone ≤ walker.movesTotal)
  (htotal : walker.movesTotal ≤ 2 ^ 64)

theorem progress_of_pos (hpos : 0 < walker.movesTotal) :
    walker.progress = Float.ofNat walker.movesDone / Float.ofNat walker.movesTotal :=
  if_neg hpos.ne'

include hdone htotal

theorem progress_bounds : 0 ≤ walker.progress ∧ walker.progress ≤ 1 := by
  rcases Nat.eq_zero_or_pos walker.movesTotal with hzero | hpos
  · rw [show walker.progress = 1 from if_pos hzero]
    decide
  · rw [progress_of_pos hpos]
    refine ⟨?_, Binary64.share_le_one htotal hdone hpos⟩
    rw [← Binary64.share_zero htotal hpos]
    exact Binary64.share_mono htotal hdone hpos (Nat.zero_le _)

theorem progress_mono (hsame : walker'.movesTotal = walker.movesTotal) (hle : walker'.movesDone ≤ walker.movesDone) :
    walker'.progress ≤ walker.progress := by
  rcases Nat.eq_zero_or_pos walker.movesTotal with hzero | hpos
  · rw [show walker.progress = 1 from if_pos hzero, show walker'.progress = 1 from if_pos (hsame.trans hzero)]
    decide
  · rw [progress_of_pos hpos, progress_of_pos (hsame ▸ hpos), hsame]
    exact Binary64.share_mono htotal hdone hpos hle

end

theorem progress_eq_one {walker : Walker C} (hdone : walker.movesDone = walker.movesTotal)
    (htotal : walker.movesTotal ≤ 2 ^ 64) : walker.progress = 1 := by
  rcases Nat.eq_zero_or_pos walker.movesTotal with hzero | hpos
  · exact if_pos hzero
  · rw [progress_of_pos hpos, hdone]
    exact Binary64.share_self htotal hpos

section

variable {map : ActionMap C} {ops : Sequence} {count : Nat} {walker : Walker C} (h : Passed map ops count walker)

include h

theorem Passed.movesTotal_le (hsize : ops.length < UInt64.size) : walker.movesTotal ≤ 2 ^ 64 := by
  rw [h.movesTotal]
  exact List.countP_le_length.trans hsize.le

theorem Passed.movesDone_le : walker.movesDone ≤ walker.movesTotal :=
  h.movesDone_add ▸ Nat.le_add_right _ _

theorem Passed.progress_eq_one (hend : walker.queue = []) (hsize : ops.length < UInt64.size) : walker.progress = 1 := by
  have hdone := h.movesDone_add
  rw [hend] at hdone
  exact Walker.progress_eq_one hdone (h.movesTotal_le hsize)

/-- Whoever has gone through more has no less progress. -/
theorem Passed.progress_le {count' : Nat} {walker' : Walker C} (h' : Passed map ops count' walker')
    (hcount : count ≤ count') (hsize : ops.length < UInt64.size) : walker.progress ≤ walker'.progress := by
  refine progress_mono h'.movesDone_le (h'.movesTotal_le hsize) (h.movesTotal.trans h'.movesTotal.symm) ?_
  rw [h.movesDone, h'.movesDone]
  exact List.Sublist.countP_le (List.take_sublist_take_left hcount)

end

/-- In every state that a walker can get to, its counters agree with what it has gone through. What is said of the
progress, a quotient of doubles, is said of sequences whose length fits a machine word. -/
theorem counts_what_it_passed (map : ActionMap C) (ops : Sequence) (context : C) (events : List (Event C)) :
    let state := after events (ofSequence map ops, context)
    let passed := reports events (ofSequence map ops, context)
    let walker := state.1
    let rest := reports (List.replicate walker.remaining .step) state
    passed.length ≤ ops.length ∧ passed.map Outcome.operation = ops.take passed.length ∧
      walker.remaining = ops.length - passed.length ∧ walker.movesDone = countMoves map (ops.take passed.length) ∧
      walker.movesTotal = countMoves map ops ∧
      walker.movesDone + countMoves map walker.queue = walker.movesTotal ∧
      ((walker.step state.2).1 = none ↔ passed.length = ops.length) ∧
      (passed.length = ops.length → walker.step state.2 = (none, walker, state.2)) ∧
      (walker.run state.2).2 = after (List.replicate walker.remaining .step) state ∧
      Tally.ofOutcomes (walker.run state.2).1 =
        ⟨ops.length - passed.length, rest.countP fun outcome => outcome.moved.isSome, rest.countP Outcome.skipped⟩ ∧
      (ops.length < UInt64.size →
        0 ≤ walker.progress ∧ walker.progress ≤ 1 ∧ (walker.finished = true → walker.progress = 1) ∧
          ∀ later, walker.progress ≤ (after later state).1.progress) := by
  intro state passed walker rest
  have hstart : Passed map ops 0 (ofSequence map ops, context).1 := passed_ofSequence map ops
  obtain ⟨hoperations, hpassed⟩ := hstart.after events
  rw [Nat.zero_add] at hpassed
  change Passed map ops passed.length state.1 at hpassed
  obtain ⟨hrest, hrun, hlength⟩ := hpassed.run state.2
  refine ⟨hpassed.count_le, hoperations, hpassed.remaining, hpassed.movesDone, hpassed.movesTotal,
    hpassed.movesDone_add, ⟨fun hstep => ?_, fun hend => ?_⟩, fun hend => hpassed.step_of_end hend state.2,
    hrun.symm, ?_, fun hsize => ?_⟩
  · by_contra hne
    obtain ⟨outcome, walker', context', hsome, -⟩ :=
      hpassed.step_of_lt (lt_of_le_of_ne hpassed.count_le hne) state.2
    rw [hsome] at hstep
    cases hstep
  · rw [hpassed.step_of_end hend]
  · rw [show rest = (walker.run state.2).1 from hrest, Tally.ofOutcomes_eq, hlength]
  · obtain ⟨hlow, hhigh⟩ := progress_bounds hpassed.movesDone_le (hpassed.movesTotal_le hsize)
    refine ⟨hlow, hhigh, fun hend => ?_, fun later => ?_⟩
    · exact hpassed.progress_eq_one (List.isEmpty_iff.mp hend) hsize
    · obtain ⟨-, hlater⟩ := hpassed.after later
      exact hpassed.progress_le hlater (Nat.le_add_right _ _) hsize

/-- Two steps with another pace and another ant between them. -/
theorem counts_what_it_passed_half_way :
    let ops : Sequence := [⟨"T", some (.int 90)⟩, ⟨"DL", some (.int 1)⟩, ⟨"A", none⟩, ⟨"DR", some (.int 1)⟩]
    let walker := (after [.step, .setPace ⟨some 5⟩, .alter fun _ => Ant.start 7 7, .step]
      (ofSequence Ant.actions ops, Ant.start 0 0)).1
    ops.length < UInt64.size ∧ walker.movesDone = 1 ∧ walker.movesTotal = 2 ∧ 0 ≤ walker.progress ∧
      walker.progress ≤ 1 := by
  intro ops walker
  have hsize : ops.length < UInt64.size := by decide
  obtain ⟨-, -, -, hdone, htotal, -, -, -, -, -, hprogress⟩ := counts_what_it_passed Ant.actions ops (Ant.start 0 0)
    [.step, .setPace ⟨some 5⟩, .alter fun _ => Ant.start 7 7, .step]
  obtain ⟨hlow, hhigh, -⟩ := hprogress hsize
  exact ⟨hsize, hdone, htotal, hlow, hhigh⟩

end Walker

end TurtleChain
