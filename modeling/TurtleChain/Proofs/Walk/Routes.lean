import TurtleChain.Proofs.Chain.NumberText
import TurtleChain.Proofs.Curve.Written
import TurtleChain.Proofs.Walk.Deeds

/-! Routes along the axes of the grid. Where sine and cosine are exact enough for a draw step to go along an axis, an
ant whose turns are quarter turns keeps to the cells ahead of it. What such a walk does to the ant is put together
from what its parts do. -/

namespace TurtleChain

open Binary64

namespace Cell

/-- The neighbour of the origin at a heading of so many quarter turns. -/
def axis (q : Int) : Cell :=
  if q % 4 = 0 then ⟨1, 0⟩
  else if q % 4 = 1 then ⟨0, 1⟩
  else if q % 4 = 2 then ⟨-1, 0⟩
  else ⟨0, -1⟩

/-- The cell that lies so far ahead at a heading of so many quarter turns. -/
def ahead (cell : Cell) (q distance : Int) : Cell :=
  ⟨cell.x + distance * (axis q).x, cell.y + distance * (axis q).y⟩

/-- Coordinates that do not stop at the end of their range. -/
structure InRange (cell : Cell) : Prop where
  x : -int64Limit ≤ cell.x ∧ cell.x < int64Limit
  y : -int64Limit ≤ cell.y ∧ cell.y < int64Limit

theorem axis_add_one (q : Int) : axis (q + 1) = ⟨-(axis q).y, (axis q).x⟩ := by
  have hcases : q % 4 = 0 ∨ q % 4 = 1 ∨ q % 4 = 2 ∨ q % 4 = 3 := by omega
  unfold axis
  rcases hcases with h | h | h | h <;> simp [Int.add_emod, h]

theorem axis_sub_one (q : Int) : axis (q - 1) = ⟨(axis q).y, -(axis q).x⟩ := by
  have h := axis_add_one (q - 1)
  rw [Int.sub_add_cancel] at h
  rw [h, neg_neg]

theorem axis_cases (q : Int) :
    axis q = ⟨1, 0⟩ ∨ axis q = ⟨0, 1⟩ ∨ axis q = ⟨-1, 0⟩ ∨ axis q = ⟨0, -1⟩ := by
  unfold axis
  split_ifs <;> simp

theorem ahead_ne {cell : Cell} {q distance : Int} (h : distance ≠ 0) : cell.ahead q distance ≠ cell := by
  intro heq
  have hx : cell.x + distance * (axis q).x = cell.x := congrArg Cell.x heq
  have hy : cell.y + distance * (axis q).y = cell.y := congrArg Cell.y heq
  rcases axis_cases q with haxis | haxis | haxis | haxis <;> rw [haxis] at hx hy <;> dsimp only at hx hy <;> omega

end Cell

theorem saturate_eq {n : Int} (h : -int64Limit ≤ n ∧ n < int64Limit) : saturate n = n := by
  unfold saturate
  omega

/-- A heading of so many quarter turns in radians. -/
def quarterTurns (q : Int) : Float :=
  Float.ofInt (90 * q) * (3.141592653589793 / 180)

/-- At up to `most` quarter turns a step by `amount` is one by `k` cells along an axis. -/
structure Trigonometry.OnAxes (trig : Trigonometry) (amount : Float) (k : Int) (most : Nat) : Prop where
  cos : ∀ q : Int, q.natAbs ≤ most → cellsOf (amount * trig.cos (quarterTurns q)) = k * (Cell.axis q).x
  sin : ∀ q : Int, q.natAbs ≤ most → cellsOf (amount * trig.sin (quarterTurns q)) = k * (Cell.axis q).y

namespace Ant

/-- An ant that is on a cell at a heading of so many quarter turns, and has moves left. -/
structure At (ant : Ant) (cell : Cell) (q : Int) : Prop where
  position : ant.position = cell
  angle : ant.angle = Float.ofInt (90 * q)
  alive : ant.alive = true
  unlimited : ant.maxLife = none

variable (trig : Trigonometry) (pace : Pace)

/-- The operations take an ant from one cell and heading to others, by way of these cells. -/
def Route (ops : Sequence) (cell : Cell) (q : Int) (cells : List Cell) (cell' : Cell) (q' : Int) : Prop :=
  ∀ ant : Ant, ant.At cell q →
    (Walker.contextAfter (actionsBy trig) pace ops ant).At cell' q' ∧
      (Walker.contextAfter (actionsBy trig) pace ops ant).trail = cells.reverse ++ ant.trail

namespace Route

variable {trig pace} {ops ops' : Sequence} {cell cell' cell'' : Cell} {q q' q'' : Int} {cells cells' : List Cell}

variable (trig pace cell q) in
theorem nil : Route trig pace [] cell q [] cell q :=
  fun _ hant => ⟨hant, rfl⟩

theorem append (h : Route trig pace ops cell q cells cell' q') (h' : Route trig pace ops' cell' q' cells' cell'' q'') :
    Route trig pace (ops ++ ops') cell q (cells ++ cells') cell'' q'' := by
  intro ant hant
  obtain ⟨hmiddle, htrail⟩ := h ant hant
  obtain ⟨hlast, htrail'⟩ := h' _ hmiddle
  rw [Walker.contextAfter_append, htrail', htrail, List.reverse_append, List.append_assoc]
  exact ⟨hlast, rfl⟩

end Route

theorem contextAfter_singleton {op : Operation} {deed : Deed} (h : deed? op = some deed) (ant : Ant) :
    Walker.contextAfter (actionsBy trig) pace [op] ant = (deed.apply trig pace ant).2 := by
  rw [Walker.contextAfter_cons, Walker.contextAfter_nil, (performs_deed trig pace op ant).context, h]
  rfl

section

variable {trig pace} {cell : Cell} {q : Int}

/-- Names that only stand for what replaces them leave the ant where it is. -/
theorem route_bare {name : String} (h : name = "A" ∨ name = "B") : Route trig pace [⟨name, none⟩] cell q [] cell q := by
  intro ant hant
  have hdeed : deed? ⟨name, none⟩ = some .rest := by
    rcases h with rfl | rfl <;> rfl
  rw [contextAfter_singleton trig pace hdeed]
  exact ⟨hant, rfl⟩

/-- So do changes of scale. -/
theorem route_rescale (x : Float) : Route trig pace [.ofNumber "S" x] cell q [] cell q := by
  intro ant hant
  obtain ⟨y, hy⟩ := Option.isSome_iff_exists.mp (Arg.isNumber_ofNumber x)
  have hdeed : deed? (.ofNumber "S" x) = some (.rescale y) := congrArg (Option.map Deed.rescale) hy
  rw [contextAfter_singleton trig pace hdeed]
  exact ⟨⟨hant.position, hant.angle, hant.alive, hant.unlimited⟩, rfl⟩

/-- Quarter turns add up exactly. -/
theorem route_turn {turns : Int} (hturns : turns ≠ 0) (hsmall : turns.natAbs < 2 ^ 40) (hq : q.natAbs < 2 ^ 40) :
    Route trig pace [.ofNumber "T" (Float.ofInt (90 * turns))] cell q [] cell (q + turns) := by
  intro ant hant
  have hlt : (90 * turns).natAbs < 2 ^ 53 := by omega
  have hnumber := Arg.number?_ofInt (show 90 * turns ≠ 0 by omega) hlt
  have hdeed : deed? (.ofNumber "T" (Float.ofInt (90 * turns))) = some (.turn (Float.ofInt (90 * turns))) :=
    congrArg (Option.map Deed.turn) hnumber
  rw [contextAfter_singleton trig pace hdeed]
  refine ⟨⟨hant.position, ?_, hant.alive, hant.unlimited⟩, rfl⟩
  show ant.angle + Float.ofInt (90 * turns) = Float.ofInt (90 * (q + turns))
  rw [hant.angle, ofInt_add (by omega) hlt (by omega), Int.mul_add]

end

/-- A draw step of this amount goes `k` cells along an axis. -/
structure DrawsOnAxes (distance amount : Float) (k : Int) (most : Nat) : Prop where
  onAxes : trig.OnAxes (distance * amount) k most
  distance_ne_zero : (distance != 0) = true
  isFinite : (distance * amount).isFinite = true
  amount : (Arg.ofNumber amount).number? = some amount
  ne_zero : k ≠ 0

variable {trig} {distance amount : Float} {k : Int} {most : Nat} {cell : Cell} {q : Int}

/-- A side and a distance whose product is the whole number of cells that a step goes. -/
theorem drawsOnAxes_of_product {step : Float} (hside : Parameter.sideLength.checkLength amount = .ok ())
    (hdistance : distance.isFinite = true) (hstep : step.isFinite = true) (hk : 0 < k) (hvalue : toRat step = k)
    (hproduct : toRat distance * toRat amount = k) (haxes : trig.OnAxes step k most) :
    DrawsOnAxes trig distance amount k most := by
  obtain ⟨-, hpos, hle⟩ := Parameter.checkLength_eq_ok_iff.mp hside
  have hk0 : (k : ℚ) ≠ 0 := Int.cast_ne_zero.mpr hk.ne'
  have hmul : distance * amount = step :=
    mul_eq_of_toRat hdistance (Parameter.isFinite_of_le_limit hle) hstep (hproduct.trans hvalue.symm)
      (hvalue ▸ hk0)
  have hdistance0 : (distance != 0) = true := by
    rw [bne, Bool.not_eq_true', ← Bool.not_eq_true, beq_zero_iff, ← toRat_eq_zero_iff]
    exact left_ne_zero_of_mul (hproduct ▸ hk0)
  exact ⟨hmul ▸ haxes, hdistance0, hmul ▸ hstep,
    Arg.number?_ofNumber (Parameter.writable_of_checkLength hside) hpos, hk.ne'⟩

theorem advanceBy_of_at (h : DrawsOnAxes trig distance amount k most) {ant : Ant} (hant : ant.At cell q)
    (hq : q.natAbs ≤ most) (hrange : (cell.ahead q k).InRange) :
    ant.advanceBy trig (distance * amount) = (some (cell.ahead q k), ant.moveTo (cell.ahead q k)) := by
  have htarget : ant.target trig (distance * amount) = cell.ahead q k := by
    have hradians : ant.headingInRadians = quarterTurns q := by
      rw [headingInRadians, hant.angle, quarterTurns]
    unfold target
    rw [hradians, h.onAxes.cos q hq, h.onAxes.sin q hq, hant.position]
    exact congrArg₂ Cell.mk (saturate_eq hrange.x) (saturate_eq hrange.y)
  unfold advanceBy
  rw [hant.alive, h.isFinite, htarget, hant.position]
  exact if_neg (Cell.ahead_ne h.ne_zero)

/-- Every draw step goes ahead. -/
theorem route_draw (h : DrawsOnAxes trig distance amount k most) {name : String}
    (hname : name ∈ ["D", "D2", "DL", "DR"]) (hq : q.natAbs ≤ most) {cell' : Cell} (hahead : cell.ahead q k = cell')
    (hrange : cell'.InRange) :
    Route trig ⟨some distance⟩ [.ofNumber name amount] cell q [cell'] cell' q := by
  subst hahead
  intro ant hant
  have hdeed : deed? (.ofNumber name amount) = some (.draw amount) :=
    (if_pos hname).trans (congrArg (Option.map Deed.draw) h.amount)
  have hdistance : drawDistance ⟨some distance⟩ ant.scale amount = distance * amount := if_pos h.distance_ne_zero
  rw [contextAfter_singleton trig ⟨some distance⟩ hdeed, Deed.apply, hdistance, advanceBy_of_at h hant hq hrange]
  refine ⟨⟨rfl, hant.angle, ?_, hant.unlimited⟩, rfl⟩
  simp [moveTo, hant.alive, hant.unlimited]

end Ant

end TurtleChain
