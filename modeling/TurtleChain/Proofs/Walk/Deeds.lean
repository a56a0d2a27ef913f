import TurtleChain.Proofs.Walk.Run

/-! What an operation has an ant do. Its text alone decides that, and whatever it is, the ant moves to another cell or
changes nothing but how it draws. -/

namespace TurtleChain

theorem toOption_requiredNumber (arg : Option Arg) : (requiredNumber arg).toOption = arg.bind Arg.number? := by
  cases arg with
  | none => rfl
  | some arg =>
      rw [Option.bind_some]
      cases hnumber : arg.number? with
      | none => simp only [requiredNumber, hnumber]; rfl
      | some x => simp only [requiredNumber, hnumber]; rfl

namespace Ant

inductive Deed where
  | draw (amount : Float)
  | turn (degrees : Float)
  | rescale (factor : Float)
  | paint (tag : Color)
  | rest

/-- What the operation has every ant do; `none` if every ant drops it. -/
def deed? (op : Operation) : Option Deed :=
  if op.name ∈ ["D", "D2", "DL", "DR"] then (op.arg.bind Arg.number?).map .draw
  else if op.name = "T" then (op.arg.bind Arg.number?).map .turn
  else if op.name = "S" then (op.arg.bind Arg.number?).map .rescale
  else if op.name = "C" then (colorArg op.arg).toOption.map .paint
  else if op.name = "A" ∨ op.name = "B" then some .rest
  else none

section

variable (trig : Trigonometry) (pace : Pace)

/-- The new position, if there is one, and the ant behind the deed. -/
def Deed.apply (deed : Deed) (ant : Ant) : Moved × Ant :=
  match deed with
  | draw amount => ant.advanceBy trig (drawDistance pace ant.scale amount)
  | turn degrees => (none, { ant with angle := ant.angle + degrees })
  | rescale factor => (none, { ant with scale := ant.scale * factor })
  | paint tag => (none, { ant with stroke := tag })
  | rest => (none, ant)

/-- The operation has the ant do this, or it is dropped if there is nothing to do. -/
structure Performs (op : Operation) (ant : Ant) (deed : Option Deed) : Prop where
  skipped : (applyOperation (actionsBy trig) pace op ant).1.skipped = deed.isNone
  moved : (applyOperation (actionsBy trig) pace op ant).1.moved = (deed.elim (none, ant) (Deed.apply trig pace · ant)).1
  context : (applyOperation (actionsBy trig) pace op ant).2 = (deed.elim (none, ant) (Deed.apply trig pace · ant)).2

variable {trig pace}

theorem performs_none {op : Operation} (h : (actionsBy trig).get? op.name = none) (ant : Ant) :
    Performs trig pace op ant none := by
  constructor <;> rw [applyOperation, h] <;> rfl

/-- An action that takes a number. -/
theorem performs_withNumber {op : Operation} {ant : Ant} {kind : ActionKind} {action : Action Ant}
    {f : Float → Ant → Moved × Ant} {deed : Float → Deed} (h : (actionsBy trig).get? op.name = some ⟨kind, action⟩)
    (haction : action op.arg pace ant = withNumber f op.arg ant) (hdeed : ∀ x, f x ant = (deed x).apply trig pace ant) :
    Performs trig pace op ant ((op.arg.bind Arg.number?).map deed) := by
  rw [← toOption_requiredNumber]
  cases hnumber : requiredNumber op.arg with
  | error e => constructor <;> simp only [applyOperation, h, haction, withNumber, hnumber] <;> rfl
  | ok x => constructor <;> simp only [applyOperation, h, haction, withNumber, hnumber, hdeed] <;> rfl

theorem performs_color {op : Operation} (h : (actionsBy trig).get? op.name = some ⟨.color, color⟩) (ant : Ant) :
    Performs trig pace op ant ((colorArg op.arg).toOption.map .paint) := by
  cases hcolor : colorArg op.arg with
  | error e => constructor <;> simp only [applyOperation, h, color, hcolor] <;> rfl
  | ok tag => constructor <;> simp only [applyOperation, h, color, hcolor] <;> rfl

theorem performs_rest {op : Operation} (h : (actionsBy trig).get? op.name = some ⟨.none, noop⟩) (ant : Ant) :
    Performs trig pace op ant (some .rest) := by
  constructor <;> rw [applyOperation, h] <;> rfl

variable (trig pace) in
/-- An operation does its deed, or it is dropped. -/
theorem performs_deed (op : Operation) (ant : Ant) : Performs trig pace op ant (deed? op) := by
  have hget := get?_actionsBy trig op.name
  unfold deed?
  split at hget
  · next hname =>
      rw [if_pos hname]
      exact performs_withNumber hget rfl fun _ => rfl
  rw [if_neg ‹_›]
  split at hget
  · next hname =>
      rw [if_pos hname]
      exact performs_withNumber hget rfl fun _ => rfl
  rw [if_neg ‹_›]
  split at hget
  · next hname =>
      rw [if_pos hname]
      exact performs_withNumber hget rfl fun _ => rfl
  rw [if_neg ‹_›]
  split at hget
  · next hname =>
      rw [if_pos hname]
      exact performs_color hget ant
  rw [if_neg ‹_›]
  split at hget
  · next hname =>
      rw [if_pos hname]
      exact performs_rest hget ant
  · next hname =>
      rw [if_neg hname]
      exact performs_none hget ant

end

/-! ### What becomes of the ant -/

/-- What an ant makes of an operation, and what is reported of it. -/
inductive Acts (ant : Ant) : Moved → Ant → Prop where
  | adjust (angle scale : Float) (stroke : Color) :
      Acts ant none { ant with angle := angle, scale := scale, stroke := stroke }
  | move {cell : Cell} (halive : ant.alive = true) (hcell : cell ≠ ant.position) :
      Acts ant (some cell) (ant.moveTo cell)

theorem acts_self (ant : Ant) : ant.Acts none ant :=
  .adjust ant.angle ant.scale ant.stroke

section

variable (trig : Trigonometry)

theorem acts_advanceBy (ant : Ant) (distance : Float) :
    ant.Acts (ant.advanceBy trig distance).1 (ant.advanceBy trig distance).2 := by
  unfold advanceBy
  split
  · exact ant.acts_self
  · next hgo =>
      dsimp only
      split
      · exact ant.acts_self
      · next hcell =>
          refine .move ?_ hcell
          cases halive : ant.alive with
          | true => rfl
          | false =>
              rw [halive] at hgo
              exact absurd rfl hgo

theorem Deed.acts (pace : Pace) (deed : Deed) (ant : Ant) :
    ant.Acts (deed.apply trig pace ant).1 (deed.apply trig pace ant).2 := by
  cases deed with
  | draw amount => exact acts_advanceBy trig ant _
  | turn degrees => exact .adjust (ant.angle + degrees) ant.scale ant.stroke
  | rescale factor => exact .adjust ant.angle (ant.scale * factor) ant.stroke
  | paint tag => exact .adjust ant.angle ant.scale tag
  | rest => exact ant.acts_self

theorem acts_applyOperation (pace : Pace) (op : Operation) (ant : Ant) :
    ant.Acts (applyOperation (actionsBy trig) pace op ant).1.moved
      (applyOperation (actionsBy trig) pace op ant).2 := by
  have hperforms := performs_deed trig pace op ant
  rw [hperforms.moved, hperforms.context]
  cases deed? op with
  | none => exact ant.acts_self
  | some deed => exact deed.acts trig pace ant

end

end Ant

end TurtleChain
