import TurtleChain.Proofs.Walk.Deeds

/-! Walks at a given distance. A draw step that goes by the distance of its pace does not look at the scale, and nothing
but a draw step ever does. Changes of scale may then be left out of a sequence or put into it: the ant goes the same
way. A distance of zero is as good as none. -/

namespace TurtleChain

/-- The operations that are no changes of scale. -/
def withoutScaling (ops : Sequence) : Sequence :=
  ops.filter fun op => op.name != "S"

namespace Ant

/-- The ants have different scales at most. -/
structure SameButScale (ant ant' : Ant) : Prop where
  position : ant.position = ant'.position
  angle : ant.angle = ant'.angle
  trail : ant.trail = ant'.trail
  stroke : ant.stroke = ant'.stroke
  alive : ant.alive = ant'.alive
  life : ant.life = ant'.life
  maxLife : ant.maxLife = ant'.maxLife

namespace SameButScale

variable {ant ant' ant'' : Ant}

theorem refl (ant : Ant) : ant.SameButScale ant :=
  ⟨rfl, rfl, rfl, rfl, rfl, rfl, rfl⟩

theorem symm (h : ant.SameButScale ant') : ant'.SameButScale ant :=
  ⟨h.position.symm, h.angle.symm, h.trail.symm, h.stroke.symm, h.alive.symm, h.life.symm, h.maxLife.symm⟩

theorem trans (h : ant.SameButScale ant') (h' : ant'.SameButScale ant'') : ant.SameButScale ant'' :=
  ⟨h.position.trans h'.position, h.angle.trans h'.angle, h.trail.trans h'.trail, h.stroke.trans h'.stroke,
    h.alive.trans h'.alive, h.life.trans h'.life, h.maxLife.trans h'.maxLife⟩

theorem path (h : ant.SameButScale ant') : ant.path = ant'.path :=
  congrArg List.reverse h.trail

theorem moveTo (h : ant.SameButScale ant') (cell : Cell) : (ant.moveTo cell).SameButScale (ant'.moveTo cell) := by
  refine ⟨rfl, h.angle, congrArg (cell :: ·) h.trail, h.stroke, ?_, congrArg (· + 1) h.life, h.maxLife⟩
  unfold Ant.moveTo
  rw [h.alive, h.life, h.maxLife]

theorem target (h : ant.SameButScale ant') (trig : Trigonometry) (distance : Float) :
    ant.target trig distance = ant'.target trig distance := by
  unfold Ant.target headingInRadians
  rw [h.position, h.angle]

theorem advanceBy (h : ant.SameButScale ant') (trig : Trigonometry) (distance : Float) :
    (ant.advanceBy trig distance).1 = (ant'.advanceBy trig distance).1 ∧
      (ant.advanceBy trig distance).2.SameButScale (ant'.advanceBy trig distance).2 := by
  unfold Ant.advanceBy
  rw [h.alive, h.target, h.position]
  split
  · exact ⟨rfl, h⟩
  · dsimp only
    split
    · exact ⟨rfl, h⟩
    · exact ⟨rfl, h.moveTo _⟩

end SameButScale

section

variable (trig : Trigonometry)

/-! ### With a distance -/

/-- A change of scale changes no more than that, whatever its argument. -/
theorem sameButScale_of_scaling (pace : Pace) {op : Operation} (hop : op.name = "S") (ant : Ant) :
    (applyOperation (actionsBy trig) pace op ant).1.moved = none ∧
      (applyOperation (actionsBy trig) pace op ant).2.SameButScale ant := by
  have hdeed : deed? op = (op.arg.bind Arg.number?).map .rescale := by
    unfold deed?
    rw [hop]
    rfl
  have hperforms := performs_deed trig pace op ant
  rw [hdeed] at hperforms
  rw [hperforms.moved, hperforms.context]
  cases op.arg.bind Arg.number? with
  | none => exact ⟨rfl, .refl ant⟩
  | some factor => exact ⟨rfl, rfl, rfl, rfl, rfl, rfl, rfl, rfl⟩

variable {distance : Float} (hdistance : (distance != 0) = true) {ant ant' : Ant} (h : ant.SameButScale ant')

include hdistance h

theorem SameButScale.apply (deed : Deed) :
    (deed.apply trig ⟨some distance⟩ ant).1 = (deed.apply trig ⟨some distance⟩ ant').1 ∧
      (deed.apply trig ⟨some distance⟩ ant).2.SameButScale (deed.apply trig ⟨some distance⟩ ant').2 := by
  cases deed with
  | draw amount =>
      have hdraw : ∀ scale, drawDistance ⟨some distance⟩ scale amount = distance * amount := fun _ => if_pos hdistance
      rw [Deed.apply, Deed.apply, hdraw, hdraw]
      exact h.advanceBy trig (distance * amount)
  | turn degrees => exact ⟨rfl, { h with angle := congrArg (· + degrees) h.angle }⟩
  | rescale factor => exact ⟨rfl, { h with }⟩
  | paint tag => exact ⟨rfl, { h with stroke := rfl }⟩
  | rest => exact ⟨rfl, h⟩

theorem SameButScale.applyOperation (op : Operation) :
    (applyOperation (actionsBy trig) ⟨some distance⟩ op ant).1.moved =
        (TurtleChain.applyOperation (actionsBy trig) ⟨some distance⟩ op ant').1.moved ∧
      (TurtleChain.applyOperation (actionsBy trig) ⟨some distance⟩ op ant).2.SameButScale
        (TurtleChain.applyOperation (actionsBy trig) ⟨some distance⟩ op ant').2 := by
  have hperforms := performs_deed trig ⟨some distance⟩ op
  rw [(hperforms ant).moved, (hperforms ant').moved, (hperforms ant).context, (hperforms ant').context]
  cases deed? op with
  | none =>
      rw [Option.elim_none, Option.elim_none]
      exact ⟨rfl, h⟩
  | some deed =>
      rw [Option.elim_some, Option.elim_some]
      exact h.apply trig hdistance deed

/-- Changes of scale may be left out: the moves are the same, and so are the ants but for their scales. -/
theorem SameButScale.withoutScaling (ops : Sequence) :
    (Walker.outcomes (actionsBy trig) ⟨some distance⟩ ops ant).filterMap Outcome.moved =
        (Walker.outcomes (actionsBy trig) ⟨some distance⟩ (withoutScaling ops) ant').filterMap Outcome.moved ∧
      (Walker.contextAfter (actionsBy trig) ⟨some distance⟩ ops ant).SameButScale
        (Walker.contextAfter (actionsBy trig) ⟨some distance⟩ (withoutScaling ops) ant') := by
  induction ops generalizing ant ant' with
  | nil => exact ⟨rfl, h⟩
  | cons op ops ih =>
      unfold TurtleChain.withoutScaling at ih ⊢
      rw [Walker.outcomes, Walker.contextAfter_cons, List.filterMap_cons]
      by_cases hop : op.name = "S"
      · obtain ⟨hmoved, hscaled⟩ := sameButScale_of_scaling trig ⟨some distance⟩ hop ant
        rw [List.filter_cons_of_neg (by simp [hop]), hmoved]
        exact ih (hscaled.trans h)
      · obtain ⟨hmoved, hnext⟩ := h.applyOperation trig hdistance op
        obtain ⟨hmoves, hlast⟩ := ih hnext
        rw [List.filter_cons_of_pos (by simp [hop]), Walker.outcomes, Walker.contextAfter_cons, List.filterMap_cons,
          hmoved, hmoves]
        exact ⟨rfl, hlast⟩

end

/-! ### Without one -/

section

variable (trig : Trigonometry) {zero : Float} (hzero : (zero == 0) = true)

include hzero

theorem drawDistance_zero : drawDistance ⟨some zero⟩ = drawDistance {} := by
  funext scale amount
  have hno : ¬(zero != 0) = true := by
    rw [bne, hzero]
    exact Bool.false_ne_true
  exact if_neg hno

theorem applyOperation_zero (op : Operation) (ant : Ant) :
    applyOperation (actionsBy trig) ⟨some zero⟩ op ant = applyOperation (actionsBy trig) {} op ant := by
  have hdraw : draw trig op.arg ⟨some zero⟩ ant = draw trig op.arg {} ant := by
    rw [draw, drawDistance_zero hzero]
    rfl
  have hact : ∀ binding, (actionsBy trig).get? op.name = some binding →
      binding.action op.arg ⟨some zero⟩ ant = binding.action op.arg {} ant := by
    intro binding hbinding
    rw [get?_actionsBy] at hbinding
    repeat' split at hbinding
    all_goals cases hbinding
    · exact hdraw
    all_goals rfl
  unfold applyOperation
  cases hget : (actionsBy trig).get? op.name with
  | none => rfl
  | some binding => simp only [hact binding hget]

/-- A distance of zero counts as none. -/
theorem outcomes_zero (ops : Sequence) (ant : Ant) :
    Walker.outcomes (actionsBy trig) ⟨some zero⟩ ops ant = Walker.outcomes (actionsBy trig) {} ops ant ∧
      Walker.contextAfter (actionsBy trig) ⟨some zero⟩ ops ant = Walker.contextAfter (actionsBy trig) {} ops ant := by
  induction ops generalizing ant with
  | nil => exact ⟨rfl, (Walker.contextAfter_nil ..).trans (Walker.contextAfter_nil ..).symm⟩
  | cons op ops ih =>
      obtain ⟨houtcomes, hcontext⟩ := ih (applyOperation (actionsBy trig) {} op ant).2
      rw [Walker.outcomes, Walker.outcomes, Walker.contextAfter_cons, Walker.contextAfter_cons,
        applyOperation_zero trig hzero, houtcomes, hcontext]
      exact ⟨rfl, rfl⟩

end

/-- With a distance other than zero, sequences that differ in changes of scale lead ants that differ in their scales
the same way, move by move. A distance of zero makes the same walk as none. -/
theorem distance_hides_scale (trig : Trigonometry) :
    (∀ distance : Float, (distance != 0) = true → ∀ ops ops' : Sequence, withoutScaling ops = withoutScaling ops' →
      ∀ ant ant' : Ant, ant.SameButScale ant' →
        let walk := ((Walker.ofSequence (actionsBy trig) ops).withPace ⟨some distance⟩).run ant
        let walk' := ((Walker.ofSequence (actionsBy trig) ops').withPace ⟨some distance⟩).run ant'
        walk.2.2.SameButScale walk'.2.2 ∧ walk.2.2.path = walk'.2.2.path ∧
          (Tally.ofOutcomes walk.1).moves = (Tally.ofOutcomes walk'.1).moves ∧
          walk.1.filterMap Outcome.moved = walk'.1.filterMap Outcome.moved) ∧
      ∀ zero : Float, (zero == 0) = true → ∀ (ops : Sequence) (ant : Ant),
        let walk := (Walker.ofSequence (actionsBy trig) ops).run ant
        let walk' := ((Walker.ofSequence (actionsBy trig) ops).withPace ⟨some zero⟩).run ant
        walk'.1 = walk.1 ∧ walk'.2.2 = walk.2.2 := by
  constructor
  · intro distance hdistance ops ops' hops ant ant' hant
    obtain ⟨hmoved, hlast⟩ := hant.withoutScaling trig hdistance ops
    obtain ⟨hmoved', hlast'⟩ := (SameButScale.refl ant').withoutScaling trig hdistance ops'
    rw [hops] at hmoved hlast
    have hant' := hlast.trans hlast'.symm
    have hmoves := hmoved.trans hmoved'.symm
    have hcount := congrArg List.length hmoves
    rw [List.length_filterMap_eq_countP, List.length_filterMap_eq_countP] at hcount
    dsimp only
    rw [Walker.run_ofSequence, Walker.run_ofSequence, Tally.ofOutcomes_eq, Tally.ofOutcomes_eq]
    exact ⟨hant', hant'.path, hcount, hmoves⟩
  · intro zero hzero ops ant
    unfold Walker.ofSequence Walker.withPace
    dsimp only
    rw [Walker.run_mk, Walker.run_mk]
    exact outcomes_zero trig hzero ops ant

/-- Draw steps with changes of scale among them, one of them dropped, and at another scale without. -/
theorem distance_hides_scale_from_start :
    let ops : Sequence := [⟨"S", some (.int 3)⟩, ⟨"D", some (.int 1)⟩, ⟨"S", none⟩, ⟨"DL", some (.int 2)⟩]
    let ops' : Sequence := [⟨"D", some (.int 1)⟩, ⟨"DL", some (.int 2)⟩]
    let ant : Ant := { start 0 0 with scale := 0.5 }
    ((2 : Float) != 0) = true ∧ withoutScaling ops = withoutScaling ops' ∧ (start 0 0).SameButScale ant ∧
      (((Walker.ofSequence actions ops).withPace ⟨some 2⟩).run (start 0 0)).2.2.path =
        (((Walker.ofSequence actions ops').withPace ⟨some 2⟩).run ant).2.2.path := by
  have hdistance : ((2 : Float) != 0) = true := by decide +kernel
  have hant : (start 0 0).SameButScale { start 0 0 with scale := 0.5 } := ⟨rfl, rfl, rfl, rfl, rfl, rfl, rfl⟩
  obtain ⟨hscale, -⟩ := distance_hides_scale .library
  obtain ⟨-, hpath, -⟩ := hscale 2 hdistance [⟨"S", some (.int 3)⟩, ⟨"D", some (.int 1)⟩, ⟨"S", none⟩,
    ⟨"DL", some (.int 2)⟩] [⟨"D", some (.int 1)⟩, ⟨"DL", some (.int 2)⟩] rfl _ _ hant
  exact ⟨hdistance, rfl, hant, hpath⟩

end Ant

end TurtleChain
