import TurtleChain.Proofs.Curve.Written
import TurtleChain.Proofs.Walk.Deeds

/-! Operations that are dropped. Whether one is dropped can be seen from its text, and every ant is behind it what it
was before: a sequence without them makes the same walk. -/

namespace TurtleChain

namespace Ant

/-- The names that stand for actions. -/
def actionNames : List String :=
  ["A", "B", "C", "D", "D2", "DL", "DR", "S", "T"]

theorem contains_actionsBy (trig : Trigonometry) (name : String) :
    (actionsBy trig).contains name = true ↔ name ∈ actionNames := by
  rw [NameMap.contains, get?_actionsBy]
  simp only [actionNames, List.mem_cons, List.not_mem_nil, or_false]
  grind

end Ant

/-- The argument is a colour as an identifier or as a text. -/
def Arg.namesColor : Arg → Bool
  | ident name | text name => ["c1", "c2", "c3", "c4"].contains name
  | _ => false

/-- The name is unknown, or the argument is not the number or the colour that the name needs. -/
def Operation.IsDropped (op : Operation) : Prop :=
  op.name ∉ Ant.actionNames ∨ op.name ∈ numberNames ∧ op.arg.any Arg.isNumber = false ∨
    op.name = "C" ∧ op.arg.any Arg.namesColor = false

instance : DecidablePred Operation.IsDropped :=
  fun op => inferInstanceAs (Decidable (op.name ∉ Ant.actionNames ∨ _))

theorem bind_number?_eq_none (arg : Option Arg) : arg.bind Arg.number? = none ↔ arg.any Arg.isNumber = false := by
  cases arg with
  | none => exact iff_of_true rfl rfl
  | some arg =>
      show arg.number? = none ↔ arg.number?.isSome = false
      rw [← Option.not_isSome_iff_eq_none, Bool.not_eq_true]

theorem Color.ofName?_eq_none (text : String) :
    Color.ofName? text = none ↔ ["c1", "c2", "c3", "c4"].contains text = false := by
  rw [Color.ofName?, List.find?_eq_none]
  simp only [List.forall_mem_cons, Color.name, List.contains_cons, List.contains_nil, beq_iff_eq, Bool.or_false,
    Bool.or_eq_false_iff, beq_eq_false_iff_ne]
  grind

theorem toOption_colorArg_ident (name : String) :
    (Ant.colorArg (some (.ident name))).toOption = Color.ofName? name := by
  cases hname : Color.ofName? name with
  | none => simp only [Ant.colorArg, hname]; rfl
  | some tag => simp only [Ant.colorArg, hname]; rfl

theorem toOption_colorArg_eq_none (arg : Option Arg) :
    (Ant.colorArg arg).toOption = none ↔ arg.any Arg.namesColor = false := by
  cases arg with
  | none => exact iff_of_true rfl rfl
  | some arg =>
      cases arg with
      | ident name =>
          rw [toOption_colorArg_ident]
          exact Color.ofName?_eq_none name
      | text content =>
          show (Ant.colorArg (some (.ident content))).toOption = none ↔ _
          rw [toOption_colorArg_ident]
          exact Color.ofName?_eq_none content
      | int value => exact iff_of_true rfl rfl
      | float value => exact iff_of_true rfl rfl
      | member object field => exact iff_of_true rfl rfl

namespace Ant

theorem deed?_eq_none_iff (op : Operation) : deed? op = none ↔ op.IsDropped := by
  have hnumber := bind_number?_eq_none op.arg
  have hcolor := toOption_colorArg_eq_none op.arg
  unfold deed? Operation.IsDropped
  simp only [actionNames, numberNames, List.mem_cons, List.not_mem_nil, or_false]
  split
  · next hname =>
      rw [Option.map_eq_none_iff, hnumber]
      grind
  · split
    · rw [Option.map_eq_none_iff, hnumber]
      grind
    · split
      · rw [Option.map_eq_none_iff, hnumber]
        grind
      · split
        · rw [Option.map_eq_none_iff, hcolor]
          grind
        · grind

section

variable (trig : Trigonometry) (pace : Pace)

theorem skipped_applyOperation (op : Operation) (ant : Ant) :
    (applyOperation (actionsBy trig) pace op ant).1.skipped = decide op.IsDropped := by
  rw [(performs_deed trig pace op ant).skipped, Bool.eq_iff_iff, Option.isNone_iff_eq_none, deed?_eq_none_iff,
    decide_eq_true_iff]

theorem applyOperation_of_isDropped {op : Operation} (h : op.IsDropped) (ant : Ant) :
    (applyOperation (actionsBy trig) pace op ant).1.moved = none ∧
      (applyOperation (actionsBy trig) pace op ant).2 = ant := by
  have hperforms := performs_deed trig pace op ant
  rw [(deed?_eq_none_iff op).mpr h] at hperforms
  exact ⟨hperforms.moved, hperforms.context⟩

/-- A walk skips as many operations as its sequence has dropped ones. -/
theorem countP_skipped_outcomes (ops : Sequence) (ant : Ant) :
    (Walker.outcomes (actionsBy trig) pace ops ant).countP Outcome.skipped =
      ops.countP fun op => decide op.IsDropped := by
  induction ops generalizing ant with
  | nil => rfl
  | cons op ops ih => rw [Walker.outcomes, List.countP_cons, List.countP_cons, ih, skipped_applyOperation]

/-- Without the dropped operations the other outcomes stay, and so does the ant behind them. -/
theorem outcomes_filter (ops : Sequence) (ant : Ant) :
    Walker.outcomes (actionsBy trig) pace (ops.filter fun op => !decide op.IsDropped) ant =
        (Walker.outcomes (actionsBy trig) pace ops ant).filter (fun outcome => !outcome.skipped) ∧
      Walker.contextAfter (actionsBy trig) pace (ops.filter fun op => !decide op.IsDropped) ant =
        Walker.contextAfter (actionsBy trig) pace ops ant := by
  induction ops generalizing ant with
  | nil => exact ⟨rfl, rfl⟩
  | cons op ops ih =>
      have hskipped := skipped_applyOperation trig pace op ant
      rw [Walker.outcomes, Walker.contextAfter_cons]
      by_cases hop : op.IsDropped
      · rw [decide_eq_true hop] at hskipped
        rw [List.filter_cons_of_neg (by simpa using hop), List.filter_cons_of_neg (by simpa using hskipped),
          (applyOperation_of_isDropped trig pace hop ant).2]
        exact ih ant
      · obtain ⟨houtcomes, hcontext⟩ := ih (applyOperation (actionsBy trig) pace op ant).2
        rw [decide_eq_false hop] at hskipped
        rw [List.filter_cons_of_pos (by simpa using hop), List.filter_cons_of_pos (by simpa using hskipped),
          Walker.outcomes, Walker.contextAfter_cons, houtcomes, hcontext]
        exact ⟨rfl, rfl⟩

/-- What is dropped does not move. -/
theorem filterMap_moved_filter (ops : Sequence) (ant : Ant) :
    ((Walker.outcomes (actionsBy trig) pace ops ant).filter fun outcome => !outcome.skipped).filterMap Outcome.moved =
      (Walker.outcomes (actionsBy trig) pace ops ant).filterMap Outcome.moved := by
  rw [List.filterMap_filter]
  refine List.filterMap_congr fun outcome hmem => ?_
  obtain ⟨op, -, ant', houtcome⟩ := Walker.exists_of_mem_outcomes _ _ hmem
  rw [houtcome, skipped_applyOperation]
  by_cases hop : op.IsDropped
  · rw [decide_eq_true hop, (applyOperation_of_isDropped trig pace hop ant').1]
    rfl
  · rw [decide_eq_false hop]
    rfl

end

/-- Which operations are dropped can be seen from their texts. A step over one of them leaves the ant as it is, a run
counts them, and without them it leads the same ant over the same cells. -/
theorem dropped_operations_have_no_effect (trig : Trigonometry) :
    (∀ name, (actionsBy trig).contains name = true ↔ name ∈ actionNames) ∧
      (∀ (op : Operation) (rest : Sequence) (pace : Pace) (total done : Nat) (ant : Ant), ∃ outcome walker ant',
        (⟨actionsBy trig, op :: rest, pace, total, done⟩ : Walker Ant).step ant = (some outcome, walker, ant') ∧
          (outcome.skipped = true ↔ op.IsDropped) ∧ (op.IsDropped → ant' = ant)) ∧
      ∀ (ops : Sequence) (pace : Pace) (ant : Ant),
        let walk := ((Walker.ofSequence (actionsBy trig) ops).withPace pace).run ant
        let kept := ((Walker.ofSequence (actionsBy trig)
          (ops.filter fun op => !decide op.IsDropped)).withPace pace).run ant
        (Tally.ofOutcomes walk.1).skipped = ops.countP (fun op => decide op.IsDropped) ∧ kept.2.2 = walk.2.2 ∧
          kept.1.filterMap Outcome.moved = walk.1.filterMap Outcome.moved ∧
          (Tally.ofOutcomes kept.1).moves = (Tally.ofOutcomes walk.1).moves := by
  refine ⟨contains_actionsBy trig, fun op rest pace total done ant => ?_, fun ops pace ant => ?_⟩
  · refine ⟨_, _, _, Walker.step_mk .., ?_, fun hop => ?_⟩
    · rw [skipped_applyOperation, decide_eq_true_iff]
    · exact (applyOperation_of_isDropped trig pace hop ant).2
  · obtain ⟨houtcomes, hcontext⟩ := outcomes_filter trig pace ops ant
    have hmoved := filterMap_moved_filter trig pace ops ant
    have hmoves := congrArg List.length hmoved
    rw [List.length_filterMap_eq_countP, List.length_filterMap_eq_countP] at hmoves
    dsimp only
    rw [Walker.run_ofSequence, Walker.run_ofSequence, Tally.ofOutcomes_eq, Tally.ofOutcomes_eq]
    dsimp only
    rw [houtcomes, hcontext]
    exact ⟨countP_skipped_outcomes trig pace ops ant, rfl, hmoved, hmoves⟩

/-- A draw step without its number, in front of one that has it. -/
theorem dropped_operations_have_no_effect_missing_number :
    (⟨"D", none⟩ : Operation).IsDropped ∧ ∃ outcome walker ant',
      (⟨actions, [⟨"D", none⟩, ⟨"D", some (.int 1)⟩], {}, 2, 0⟩ : Walker Ant).step (start 0 0) =
          (some outcome, walker, ant') ∧ outcome.skipped = true ∧ ant' = start 0 0 := by
  have hop : (⟨"D", none⟩ : Operation).IsDropped := Or.inr (Or.inl ⟨by decide, rfl⟩)
  obtain ⟨-, hsteps, -⟩ := dropped_operations_have_no_effect .library
  obtain ⟨outcome, walker, ant', hstep, hskipped, hant⟩ := hsteps ⟨"D", none⟩ [⟨"D", some (.int 1)⟩] {} 2 0 (start 0 0)
  exact ⟨hop, outcome, walker, ant', hstep, hskipped.mpr hop, hant hop⟩

end Ant

namespace Walk

variable (trig : Trigonometry) (options : Walk.Options) (ops : Sequence)

theorem skipped_alongBy :
    (alongBy trig options ops).report.tally.skipped = ops.countP fun op => decide op.IsDropped := by
  rw [tally_alongBy]
  exact Ant.countP_skipped_outcomes trig ⟨options.distance⟩ ops options.ant

theorem steps_alongBy : (alongBy trig options ops).report.tally.steps = ops.length := by
  rw [tally_alongBy]

end Walk

end TurtleChain
