import TurtleChain.Proofs.Walk.Dropped
import TurtleChain.Proofs.Walk.Hilbert

/-! Walks from other cells. An ant reads its position only to add to it, and to see whether that has changed it. As long
as no coordinate stops at the end of its range, a walk from another cell is therefore the same walk, shifted by what
lies between the cells. -/

namespace TurtleChain

namespace Cell

/-- The cell that lies beside this one as the offset lies beside the origin. -/
def shifted (offset cell : Cell) : Cell :=
  ⟨cell.x + offset.x, cell.y + offset.y⟩

/-- What lies between two cells. -/
def offsetTo (cell cell' : Cell) : Cell :=
  ⟨cell'.x - cell.x, cell'.y - cell.y⟩

theorem shifted_offsetTo (cell cell' : Cell) : (cell.offsetTo cell').shifted cell = cell' := by
  simp [shifted, offsetTo]

theorem shifted_injective (offset : Cell) : Function.Injective offset.shifted := by
  intro cell cell' h
  obtain ⟨hx, hy⟩ := Cell.mk.inj h
  exact congrArg₂ Cell.mk (add_right_cancel hx) (add_right_cancel hy)

instance : DecidablePred InRange := fun cell =>
  decidable_of_iff ((-int64Limit ≤ cell.x ∧ cell.x < int64Limit) ∧ -int64Limit ≤ cell.y ∧ cell.y < int64Limit)
    ⟨fun h => ⟨h.1, h.2⟩, fun h => ⟨h.x, h.y⟩⟩

end Cell

namespace Ant

/-- The same ant elsewhere, its trail included. -/
def shifted (offset : Cell) (ant : Ant) : Ant :=
  { ant with position := offset.shifted ant.position, trail := ant.trail.map offset.shifted }

theorem path_shifted (offset : Cell) (ant : Ant) : (ant.shifted offset).path = ant.path.map offset.shifted :=
  List.map_reverse.symm

theorem moveTo_shifted (offset : Cell) (ant : Ant) (cell : Cell) :
    (ant.shifted offset).moveTo (offset.shifted cell) = (ant.moveTo cell).shifted offset := rfl

/-- A new ant on a cell, with a limit to its moves or without. -/
def startAt (cell : Cell) : Option Nat → Ant
  | none => start cell.x cell.y
  | some most => (start cell.x cell.y).limitLife most

theorem shifted_startAt (cell cell' : Cell) (limit : Option Nat) :
    (startAt cell limit).shifted (cell.offsetTo cell') = startAt cell' limit := by
  have hstart : (start cell.x cell.y).shifted (cell.offsetTo cell') = start cell'.x cell'.y := by
    rw [shifted, start, List.map_singleton, Cell.shifted_offsetTo]
    rfl
  cases limit with
  | none => exact hstart
  | some most => exact congrArg (limitLife · most) hstart

section

variable (trig : Trigonometry)

/-! ### Coordinates without an end -/

/-- The cell that a distance along the heading leads to if coordinates have no end. An ant that is not alive, or has no
finite distance to go, aims at none. -/
def aim? (ant : Ant) (distance : Float) : Option Cell :=
  if ant.alive && distance.isFinite then
    some ⟨ant.position.x + cellsOf (distance * trig.cos ant.headingInRadians),
      ant.position.y + cellsOf (distance * trig.sin ant.headingInRadians)⟩
  else none

theorem aim?_shifted (offset : Cell) (ant : Ant) (distance : Float) :
    (ant.shifted offset).aim? trig distance = (ant.aim? trig distance).map offset.shifted := by
  unfold aim?
  rw [apply_ite (Option.map offset.shifted), Option.map_some, Option.map_none]
  congr 3
  · exact Int.add_right_comm _ _ _
  · exact Int.add_right_comm _ _ _

/-- The ant goes to the cell that it aims at, unless it is there. -/
theorem advanceBy_of_inRange {ant : Ant} {distance : Float} (h : ∀ cell ∈ ant.aim? trig distance, cell.InRange) :
    ant.advanceBy trig distance =
      (ant.aim? trig distance).elim (none, ant) fun cell =>
        if cell = ant.position then (none, ant) else (some cell, ant.moveTo cell) := by
  unfold advanceBy
  rw [← Bool.not_and]
  unfold aim? at h ⊢
  cases hgo : ant.alive && distance.isFinite with
  | false => rfl
  | true =>
      rw [hgo, if_pos rfl] at h
      have hrange := h _ rfl
      have htarget : ant.target trig distance = _ := congrArg₂ Cell.mk (saturate_eq hrange.x) (saturate_eq hrange.y)
      rw [htarget]
      rfl

theorem advanceBy_shifted {offset : Cell} {ant : Ant} {distance : Float}
    (h : ∀ cell ∈ ant.aim? trig distance, cell.InRange)
    (h' : ∀ cell ∈ (ant.shifted offset).aim? trig distance, cell.InRange) :
    (ant.shifted offset).advanceBy trig distance =
      ((ant.advanceBy trig distance).1.map offset.shifted, (ant.advanceBy trig distance).2.shifted offset) := by
  rw [advanceBy_of_inRange trig h, advanceBy_of_inRange trig h', aim?_shifted]
  cases ant.aim? trig distance with
  | none => rfl
  | some cell =>
      have hiff : offset.shifted cell = (ant.shifted offset).position ↔ cell = ant.position :=
        offset.shifted_injective.eq_iff
      simp only [Option.map_some, Option.elim_some]
      by_cases hcell : cell = ant.position
      · rw [if_pos hcell, if_pos (hiff.mpr hcell)]
        rfl
      · rw [if_neg hcell, if_neg (hiff.not.mpr hcell), moveTo_shifted]
        rfl

/-! ### Walks -/

variable (pace : Pace)

/-- The cell that an operation has the ant aim at. -/
def aimOf? (op : Operation) (ant : Ant) : Option Cell :=
  match deed? op with
  | some (.draw amount) => ant.aim? trig (drawDistance pace ant.scale amount)
  | _ => none

/-- The cells that the ant aims at on a walk, one after another. -/
def aims : Sequence → Ant → List Cell
  | [], _ => []
  | op :: ops, ant =>
    (ant.aimOf? trig pace op).toList ++ aims ops (applyOperation (actionsBy trig) pace op ant).2

variable {offset : Cell} {ant : Ant}

theorem applyOperation_shifted {op : Operation} (h : ∀ cell ∈ ant.aimOf? trig pace op, cell.InRange)
    (h' : ∀ cell ∈ (ant.shifted offset).aimOf? trig pace op, cell.InRange) :
    (applyOperation (actionsBy trig) pace op (ant.shifted offset)).1.moved =
        (applyOperation (actionsBy trig) pace op ant).1.moved.map offset.shifted ∧
      (applyOperation (actionsBy trig) pace op (ant.shifted offset)).2 =
        (applyOperation (actionsBy trig) pace op ant).2.shifted offset := by
  have hperforms := performs_deed trig pace op
  rw [(hperforms _).moved, (hperforms _).context, (hperforms ant).moved, (hperforms ant).context]
  unfold aimOf? at h h'
  cases hdeed : deed? op with
  | none => exact ⟨rfl, rfl⟩
  | some deed =>
      rw [hdeed] at h h'
      cases deed with
      | draw amount =>
          have hadvance := advanceBy_shifted trig h h'
          exact ⟨congrArg Prod.fst hadvance, congrArg Prod.snd hadvance⟩
      | turn degrees => exact ⟨rfl, rfl⟩
      | rescale factor => exact ⟨rfl, rfl⟩
      | paint tag => exact ⟨rfl, rfl⟩
      | rest => exact ⟨rfl, rfl⟩

/-- As long as neither walk aims out of range, the moves of one are those of the other, shifted. -/
theorem outcomes_shifted {ops : Sequence} (h : ∀ cell ∈ aims trig pace ops ant, cell.InRange)
    (h' : ∀ cell ∈ aims trig pace ops (ant.shifted offset), cell.InRange) :
    (Walker.outcomes (actionsBy trig) pace ops (ant.shifted offset)).map Outcome.moved =
        (Walker.outcomes (actionsBy trig) pace ops ant).map (·.moved.map offset.shifted) ∧
      Walker.contextAfter (actionsBy trig) pace ops (ant.shifted offset) =
        (Walker.contextAfter (actionsBy trig) pace ops ant).shifted offset := by
  induction ops generalizing ant with
  | nil => exact ⟨rfl, rfl⟩
  | cons op ops ih =>
      simp only [aims, List.mem_append, Option.mem_toList] at h h'
      obtain ⟨hmoved, hnext⟩ := applyOperation_shifted trig pace (fun cell hcell => h cell (Or.inl hcell))
        fun cell hcell => h' cell (Or.inl hcell)
      rw [hnext] at h'
      obtain ⟨hmoves, hlast⟩ := ih (fun cell hcell => h cell (Or.inr hcell)) fun cell hcell => h' cell (Or.inr hcell)
      rw [Walker.outcomes, Walker.outcomes, Walker.contextAfter_cons, Walker.contextAfter_cons, List.map_cons,
        List.map_cons, hmoved, hnext, hmoves, hlast]
      exact ⟨rfl, rfl⟩

/-- From two cells, and with the same limit, the same walk: its cells lie as far apart as those, and nothing else is
different. No coordinate may stop at the end of its range on either walk. -/
theorem walk_shifts_with_start {ops : Sequence} {limit : Option Nat} {cell cell' : Cell}
    (h : ∀ target ∈ aims trig pace ops (startAt cell limit), target.InRange)
    (h' : ∀ target ∈ aims trig pace ops (startAt cell' limit), target.InRange) :
    let walk := ((Walker.ofSequence (actionsBy trig) ops).withPace pace).run (startAt cell limit)
    let walk' := ((Walker.ofSequence (actionsBy trig) ops).withPace pace).run (startAt cell' limit)
    walk'.2.2.path = walk.2.2.path.map (cell.offsetTo cell').shifted ∧ walk'.2.2.angle = walk.2.2.angle ∧
      walk'.2.2.scale = walk.2.2.scale ∧ walk'.2.2.stroke = walk.2.2.stroke ∧ walk'.2.2.alive = walk.2.2.alive ∧
      walk'.2.2.life = walk.2.2.life ∧ Tally.ofOutcomes walk'.1 = Tally.ofOutcomes walk.1 := by
  rw [← shifted_startAt cell cell' limit] at h' ⊢
  obtain ⟨hmoved, hlast⟩ := outcomes_shifted trig pace h h'
  have hmoves := congrArg (List.countP Option.isSome) hmoved
  rw [List.countP_map, List.countP_map] at hmoves
  dsimp only
  rw [Walker.run_ofSequence, Walker.run_ofSequence, Tally.ofOutcomes_eq, Tally.ofOutcomes_eq]
  dsimp only
  rw [hlast, path_shifted, Walker.length_outcomes, Walker.length_outcomes, countP_skipped_outcomes,
    countP_skipped_outcomes]
  refine ⟨rfl, rfl, rfl, rfl, rfl, rfl, ?_⟩
  rw [Tally.mk.injEq]
  refine ⟨rfl, hmoves.trans (List.countP_congr fun outcome _ => ?_), rfl⟩
  exact Bool.eq_iff_iff.mp Option.isSome_map

end

/-- From the origin, and away from the end of the range. -/
theorem walk_shifts_with_start_at_end :
    let ops : Sequence := [⟨"T", some (.int 180)⟩, ⟨"D", some (.int 3)⟩, ⟨"T", some (.int (-90))⟩, ⟨"D", some (.int 2)⟩]
    let walk := (Walker.ofSequence (actionsBy .halfTurn) ops).run (startAt ⟨0, 0⟩ (some 2))
    let walk' := (Walker.ofSequence (actionsBy .halfTurn) ops).run (startAt ⟨int64Limit - 1, -7⟩ (some 2))
    (∀ target ∈ aims .halfTurn {} ops (startAt ⟨0, 0⟩ (some 2)), target.InRange) ∧
      (∀ target ∈ aims .halfTurn {} ops (startAt ⟨int64Limit - 1, -7⟩ (some 2)), target.InRange) ∧
      walk.2.2.path = [⟨0, 0⟩, ⟨-3, 0⟩, ⟨-3, 2⟩] ∧
      walk'.2.2.path = walk.2.2.path.map (Cell.offsetTo ⟨0, 0⟩ ⟨int64Limit - 1, -7⟩).shifted := by
  intro ops walk walk'
  have h : ∀ target ∈ aims .halfTurn {} ops (startAt ⟨0, 0⟩ (some 2)), target.InRange := by decide +kernel
  have h' : ∀ target ∈ aims .halfTurn {} ops (startAt ⟨int64Limit - 1, -7⟩ (some 2)), target.InRange := by
    decide +kernel
  exact ⟨h, h', by decide +kernel, (walk_shifts_with_start .halfTurn {} h h').1⟩

end Ant

end TurtleChain
