import TurtleChain.Proofs.NameMap
import TurtleChain.Walk.Report

/-! Runs of a walker, one operation after another. A run gives one outcome for each operation and the context behind
the last one, and a run over appended sequences goes on where the first of them ended. The walker counts the movements
among the operations it has passed, and the tally of a run the outcomes that moved and those that were skipped. -/

namespace TurtleChain

theorem operation_applyOperation {C : Type} (map : ActionMap C) (pace : Pace) (op : Operation) (context : C) :
    (applyOperation map pace op context).1.operation = op := by
  unfold applyOperation
  split
  · rfl
  · split <;> rfl

theorem kind_applyOperation {C : Type} (map : ActionMap C) (pace : Pace) (op : Operation) (context : C) :
    (applyOperation map pace op context).1.kind = ActionMap.kind? map op.name := by
  unfold applyOperation ActionMap.kind?
  cases map.get? op.name with
  | none => rfl
  | some binding =>
      dsimp only
      split <;> rfl

namespace Tally

theorem count_eq (tally : Tally) (outcome : Outcome) :
    tally.count outcome = ⟨tally.steps + 1, tally.moves + if outcome.moved.isSome then 1 else 0,
      tally.skipped + if outcome.skipped then 1 else 0⟩ := by
  unfold count
  cases outcome.moved.isSome <;> cases outcome.skipped <;> rfl

/-- Every outcome is a step, and is counted once more if it moved and if it was skipped. -/
theorem ofOutcomes_eq (outcomes : List Outcome) :
    ofOutcomes outcomes =
      ⟨outcomes.length, outcomes.countP fun outcome => outcome.moved.isSome, outcomes.countP Outcome.skipped⟩ := by
  have hfold : ∀ tally : Tally,
      outcomes.foldl count tally =
        ⟨tally.steps + outcomes.length, tally.moves + outcomes.countP fun outcome => outcome.moved.isSome,
          tally.skipped + outcomes.countP Outcome.skipped⟩ := by
    induction outcomes with
    | nil =>
        intro tally
        rfl
    | cons outcome outcomes ih =>
        intro tally
        rw [List.foldl_cons, ih, count_eq, List.length_cons, List.countP_cons, List.countP_cons]
        dsimp only
        congr 1 <;> omega
  rw [ofOutcomes, hfold, Nat.zero_add, Nat.zero_add, Nat.zero_add]

end Tally

namespace Walker

section

variable {C : Type} (map : ActionMap C) (pace : Pace)

/-- The context behind the operations. -/
def contextAfter (ops : Sequence) (context : C) : C :=
  ops.foldl (fun context op => (applyOperation map pace op context).2) context

/-- What becomes of the operations, one after another. -/
def outcomes : Sequence → C → List Outcome
  | [], _ => []
  | op :: ops, context =>
    (applyOperation map pace op context).1 :: outcomes ops (applyOperation map pace op context).2

theorem contextAfter_nil (context : C) : contextAfter map pace [] context = context := rfl

theorem contextAfter_cons (op : Operation) (ops : Sequence) (context : C) :
    contextAfter map pace (op :: ops) context =
      contextAfter map pace ops (applyOperation map pace op context).2 := rfl

theorem contextAfter_append (ops ops' : Sequence) (context : C) :
    contextAfter map pace (ops ++ ops') context = contextAfter map pace ops' (contextAfter map pace ops context) :=
  List.foldl_append

theorem length_outcomes (ops : Sequence) (context : C) : (outcomes map pace ops context).length = ops.length := by
  induction ops generalizing context with
  | nil => rfl
  | cons op ops ih => rw [outcomes, List.length_cons, ih, List.length_cons]

/-- Each outcome is that of an operation in some context. -/
theorem exists_of_mem_outcomes {ops : Sequence} {context : C} {outcome : Outcome}
    (h : outcome ∈ outcomes map pace ops context) :
    ∃ op ∈ ops, ∃ context', outcome = (applyOperation map pace op context').1 := by
  induction ops generalizing context with
  | nil => cases h
  | cons op ops ih =>
      rcases List.mem_cons.mp h with rfl | h
      · exact ⟨op, List.mem_cons_self, context, rfl⟩
      · obtain ⟨op', hop', context', houtcome⟩ := ih h
        exact ⟨op', List.mem_cons_of_mem op hop', context', houtcome⟩

end

section

variable {C : Type} (map : ActionMap C) (ops : Sequence) (pace : Pace) (total done : Nat) (context : C)

theorem countMoves_append (ops ops' : Sequence) :
    countMoves map (ops ++ ops') = countMoves map ops + countMoves map ops' :=
  List.countP_append

theorem countMoves_singleton (op : Operation) :
    countMoves map [op] = if (ActionMap.kind? map op.name).any ActionKind.isMovement then 1 else 0 := by
  rw [countMoves, List.countP_singleton, ActionMap.isMovement]
  cases ActionMap.kind? map op.name <;> rfl

theorem step_mk (op : Operation) :
    (⟨map, op :: ops, pace, total, done⟩ : Walker C).step context =
      (some (applyOperation map pace op context).1, ⟨map, ops, pace, total, done + countMoves map [op]⟩,
        (applyOperation map pace op context).2) := by
  rw [countMoves_singleton, ← kind_applyOperation map pace op context]
  unfold step
  dsimp only
  split <;> rfl

theorem runFrom_mk (found : List Outcome) :
    (⟨map, ops, pace, total, done⟩ : Walker C).runFrom context found =
      (found.reverse ++ outcomes map pace ops context, ⟨map, [], pace, total, done + countMoves map ops⟩,
        contextAfter map pace ops context) := by
  induction ops generalizing done context found with
  | nil =>
      rw [runFrom, step]
      simp [outcomes, contextAfter, countMoves]
  | cons op ops ih =>
      rw [runFrom, step_mk]
      dsimp only
      rw [ih, List.reverse_cons, List.append_assoc, Nat.add_assoc, ← countMoves_append]
      rfl

theorem run_mk :
    (⟨map, ops, pace, total, done⟩ : Walker C).run context =
      (outcomes map pace ops context, ⟨map, [], pace, total, done + countMoves map ops⟩,
        contextAfter map pace ops context) :=
  runFrom_mk map ops pace total done context []

/-- A walker that starts with the operations goes through all of them. -/
theorem run_ofSequence :
    ((ofSequence map ops).withPace pace).run context =
      (outcomes map pace ops context, ⟨map, [], pace, countMoves map ops, 0 + countMoves map ops⟩,
        contextAfter map pace ops context) :=
  run_mk map ops pace _ _ context

end

end Walker

namespace Ant

/-- What the names stand for. -/
theorem get?_actionsBy (trig : Trigonometry) (name : String) :
    (actionsBy trig).get? name =
      if name ∈ ["D", "D2", "DL", "DR"] then some ⟨.main, draw trig⟩
      else if name = "T" then some ⟨.turn, turn⟩
      else if name = "S" then some ⟨.scale, rescale⟩
      else if name = "C" then some ⟨.color, color⟩
      else if name = "A" ∨ name = "B" then some ⟨.none, noop⟩
      else none := by
  simp only [actionsBy, ActionMap.bind, ActionMap.alias?, List.foldl_cons, List.foldl_nil, NameMap.get?_put]
  simp [NameMap.get?_put, NameMap.get?_empty]
  grind

end Ant

namespace Walk

theorem alongBy_eq (trig : Trigonometry) (options : Walk.Options) (ops : Sequence) :
    alongBy trig options ops =
      ⟨Walker.outcomes (Ant.actionsBy trig) ⟨options.distance⟩ ops options.ant,
        Walker.contextAfter (Ant.actionsBy trig) ⟨options.distance⟩ ops options.ant⟩ := by
  rw [alongBy, Walker.run_ofSequence]

theorem tally_alongBy (trig : Trigonometry) (options : Walk.Options) (ops : Sequence) :
    (alongBy trig options ops).report.tally =
      ⟨ops.length,
        (Walker.outcomes (Ant.actionsBy trig) ⟨options.distance⟩ ops options.ant).countP fun outcome =>
          outcome.moved.isSome,
        (Walker.outcomes (Ant.actionsBy trig) ⟨options.distance⟩ ops options.ant).countP Outcome.skipped⟩ := by
  rw [report, alongBy_eq, Tally.ofOutcomes_eq, Walker.length_outcomes]

end Walk

end TurtleChain
