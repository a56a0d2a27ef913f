import TurtleChain.Proofs.Curve.HilbertCells
import TurtleChain.Proofs.Curve.Rules
import TurtleChain.Proofs.Rewriting.Generations
import TurtleChain.Proofs.Walk.Routes

/-! The walk along a Hilbert curve. A generation is walked like the order of its cells says, for both hands, all
headings, and every cell to start from. -/

namespace TurtleChain

open Binary64

namespace Hilbert

/-- The cell of these coordinates, in steps of `k` cells from a corner: ahead, and to the side away from the hand. -/
def placed (k : Int) (corner : Cell) (q : Int) (hand : TurnSign) (cell : Cell) : Cell :=
  (corner.ahead q (k * cell.x)).ahead (q - hand.toInt) (k * cell.y)

section

variable (k : Int) (corner : Cell) (q : Int) (hand : TurnSign)

theorem axis_add_hand : Cell.axis (q + hand.toInt) =
    ⟨-(hand.toInt * (Cell.axis q).y), hand.toInt * (Cell.axis q).x⟩ := by
  cases hand with
  | negative =>
      rw [show q + TurnSign.negative.toInt = q - 1 from rfl, Cell.axis_sub_one]
      simp [TurnSign.toInt]
  | positive =>
      rw [show q + TurnSign.positive.toInt = q + 1 from rfl, Cell.axis_add_one]
      simp [TurnSign.toInt]

theorem axis_sub_hand : Cell.axis (q - hand.toInt) =
    ⟨hand.toInt * (Cell.axis q).y, -(hand.toInt * (Cell.axis q).x)⟩ := by
  rw [sub_eq_add_neg, ← TurnSign.toInt_flipped, axis_add_hand, TurnSign.toInt_flipped]
  simp

theorem placed_zero : placed k corner q hand ⟨0, 0⟩ = corner := by
  simp [placed, Cell.ahead]

theorem placed_placed (offset cell : Cell) :
    placed k (placed k corner q hand offset) q hand cell =
      placed k corner q hand ⟨offset.x + cell.x, offset.y + cell.y⟩ := by
  simp only [placed, Cell.ahead, Cell.mk.injEq]
  constructor <;> ring

/-- A curve of the other hand, behind a turn away from the hand, lies across. -/
theorem placed_across (cell : Cell) :
    placed k corner (q - hand.toInt) hand.flipped cell = placed k corner q hand ⟨cell.y, cell.x⟩ := by
  have hhand := hand.toInt_mul_self
  simp only [placed, Cell.ahead, TurnSign.toInt_flipped, sub_neg_eq_add, sub_add_cancel, Cell.mk.injEq]
  constructor <;> ring

/-- Behind a turn to the hand it lies across and backwards. -/
theorem placed_back (offset cell : Cell) :
    placed k (placed k corner q hand offset) (q + hand.toInt) hand.flipped cell =
      placed k corner q hand ⟨offset.x - cell.y, offset.y - cell.x⟩ := by
  have hhand := hand.toInt_mul_self
  simp only [placed, Cell.ahead, TurnSign.toInt_flipped, sub_neg_eq_add, axis_add_hand, axis_sub_hand, Cell.mk.injEq]
  constructor
  · linear_combination (-k * cell.y * (Cell.axis q).x) * hhand
  · linear_combination (-k * cell.y * (Cell.axis q).y) * hhand

theorem ahead_placed (x y : Int) :
    (placed k corner q hand ⟨x, y⟩).ahead q k = placed k corner q hand ⟨x + 1, y⟩ := by
  simp only [placed, Cell.ahead, Cell.mk.injEq]
  constructor <;> ring

theorem ahead_placed_aside (x y : Int) :
    (placed k corner q hand ⟨x, y⟩).ahead (q - hand.toInt) k = placed k corner q hand ⟨x, y + 1⟩ := by
  simp only [placed, Cell.ahead, Cell.mk.injEq]
  constructor <;> ring

theorem ahead_placed_back (x y : Int) :
    (placed k corner q hand ⟨x, y⟩).ahead (q + hand.toInt) k = placed k corner q hand ⟨x, y - 1⟩ := by
  simp only [placed, Cell.ahead, axis_add_hand, axis_sub_hand, Cell.mk.injEq]
  constructor <;> ring

end

/-! ### Passes -/

/-- The operation that stands for a curve of this hand. -/
def curve : TurnSign → Operation
  | .positive => ⟨"A", none⟩
  | .negative => ⟨"B", none⟩

/-- A turn by quarters. -/
def turnOp (turns : Int) : Operation :=
  .ofNumber "T" (Float.ofInt (90 * turns))

theorem tail_cells (n : Nat) :
    (cells (n + 1)).tail =
      (cells n).tail.map (fun cell => ⟨cell.y, cell.x⟩) ++
        ⟨0, 2 ^ n⟩ :: (cells n).tail.map (fun cell => ⟨cell.x, 2 ^ n + cell.y⟩) ++
        ⟨2 ^ n, 2 ^ n⟩ :: (cells n).tail.map (fun cell => ⟨2 ^ n + cell.x, 2 ^ n + cell.y⟩) ++
        ⟨2 ^ n + 2 ^ n - 1, 2 ^ n - 1⟩ ::
          (cells n).tail.map (fun cell => ⟨2 ^ n + 2 ^ n - 1 - cell.y, 2 ^ n - 1 - cell.x⟩) := by
  simp only [cells, quarters, List.flatMap_cons, List.flatMap_nil, List.append_nil]
  rw [cells_eq_cons n]
  simp

variable {table : Table} {side : Float}

section

variable (htable : table.Has (Family.hilbert.ruleOps side))

include htable

theorem replacement_curve (hand : TurnSign) :
    table.replacement (curve hand) =
      [.ofNumber "S" 0.25, turnOp (-hand.toInt)] ++ [curve hand.flipped] ++
        [.ofNumber "D" side, turnOp hand.toInt] ++ [curve hand] ++ [.ofNumber "D" side] ++ [curve hand] ++
        [turnOp hand.toInt, .ofNumber "D" side] ++ [curve hand.flipped] ++
        [turnOp (-hand.toInt), .ofNumber "S" 4] := by
  unfold Table.replacement
  rw [htable.get?]
  cases hand <;> rfl

/-- A pass on a curve puts four curves together, of which the first and the last are of the other hand. -/
theorem generation_curve (hand : TurnSign) (n : Nat) :
    table.generation [curve hand] (n + 1) =
      [.ofNumber "S" 0.25, turnOp (-hand.toInt)] ++ table.generation [curve hand.flipped] n ++
        [.ofNumber "D" side, turnOp hand.toInt] ++ table.generation [curve hand] n ++
        [.ofNumber "D" side] ++ table.generation [curve hand] n ++
        [turnOp hand.toInt, .ofNumber "D" side] ++ table.generation [curve hand.flipped] n ++
        [turnOp (-hand.toInt), .ofNumber "S" 4] := by
  have hstay : ∀ ops : Sequence, (∀ op ∈ ops, op.name ∈ ["S", "T", "D"]) → table.generation ops n = ops := by
    refine fun ops hops => table.generation_of_none (fun op hop => ?_) n
    have hname := hops op hop
    rw [htable.get?]
    generalize op.name = name at hname
    fin_cases hname <;> rfl
  rw [Table.generation_singleton_succ, replacement_curve htable]
  simp only [Table.generation_append]
  rw [hstay [.ofNumber "S" 0.25, turnOp (-hand.toInt)] (by simp [turnOp, Operation.ofNumber]),
    hstay [.ofNumber "D" side, turnOp hand.toInt] (by simp [turnOp, Operation.ofNumber]),
    hstay [.ofNumber "D" side] (by simp [Operation.ofNumber]),
    hstay [turnOp hand.toInt, .ofNumber "D" side] (by simp [turnOp, Operation.ofNumber]),
    hstay [turnOp (-hand.toInt), .ofNumber "S" 4] (by simp [turnOp, Operation.ofNumber])]

end

/-! ### The walk -/

open Ant

section

variable (table : Table) (trig : Trigonometry) (distance : Float) (k : Int) (most : Nat)

/-- From every cell and heading, a curve of level `n` visits the cells of its square in order. -/
def Visits (n : Nat) (hand : TurnSign) : Prop :=
  ∀ (corner : Cell) (q : Int), q.natAbs + n ≤ most → (∀ cell ∈ cells n, (placed k corner q hand cell).InRange) →
    Route trig ⟨some distance⟩ (table.generation [curve hand] n) corner q
      ((cells n).tail.map (placed k corner q hand)) (placed k corner q hand ⟨2 ^ n - 1, 0⟩) q

end

variable {trig : Trigonometry} {distance : Float} {k : Int} {most n : Nat} {hand : TurnSign} {corner : Cell} {q : Int}

/-- The cells of a square of `length` cells to the side are in the range of coordinates. -/
def SquareInRange (k : Int) (corner : Cell) (q : Int) (hand : TurnSign) (length : Int) : Prop :=
  ∀ x y : Int, 0 ≤ x → x < length → 0 ≤ y → y < length → (placed k corner q hand ⟨x, y⟩).InRange

theorem Visits.across (h : Visits table trig distance k most n hand.flipped) (hq : q.natAbs + n < most)
    (hrange : SquareInRange k corner q hand (2 ^ n + 2 ^ n)) :
    Route trig ⟨some distance⟩ (table.generation [curve hand.flipped] n) corner (q - hand.toInt)
      ((cells n).tail.map fun cell => placed k corner q hand ⟨cell.y, cell.x⟩)
      (placed k corner q hand ⟨0, 2 ^ n - 1⟩) (q - hand.toInt) := by
  have hunit := hand.natAbs_toInt
  have hroute := h corner (q - hand.toInt) (by omega) fun cell hcell => by
    have hcell := mem_cells.mp hcell
    rw [placed_across]
    exact hrange _ _ (by omega) (by omega) (by omega) (by omega)
  rw [placed_across] at hroute
  rwa [← funext (placed_across k corner q hand)]

theorem Visits.further (h : Visits table trig distance k most n hand) (hq : q.natAbs + n ≤ most) (offset : Cell)
    (hoffset : (0 ≤ offset.x ∧ offset.x ≤ 2 ^ n) ∧ 0 ≤ offset.y ∧ offset.y ≤ 2 ^ n)
    (hrange : SquareInRange k corner q hand (2 ^ n + 2 ^ n)) :
    Route trig ⟨some distance⟩ (table.generation [curve hand] n) (placed k corner q hand offset) q
      ((cells n).tail.map fun cell => placed k corner q hand ⟨offset.x + cell.x, offset.y + cell.y⟩)
      (placed k corner q hand ⟨offset.x + (2 ^ n - 1), offset.y⟩) q := by
  have hroute := h (placed k corner q hand offset) q hq fun cell hcell => by
    have hcell := mem_cells.mp hcell
    rw [placed_placed]
    exact hrange _ _ (by omega) (by omega) (by omega) (by omega)
  rw [placed_placed, add_zero] at hroute
  rwa [← funext (placed_placed k corner q hand offset)]

theorem Visits.back (h : Visits table trig distance k most n hand.flipped) (hq : q.natAbs + n < most)
    (hrange : SquareInRange k corner q hand (2 ^ n + 2 ^ n)) :
    Route trig ⟨some distance⟩ (table.generation [curve hand.flipped] n)
      (placed k corner q hand ⟨2 ^ n + 2 ^ n - 1, 2 ^ n - 1⟩) (q + hand.toInt)
      ((cells n).tail.map fun cell => placed k corner q hand ⟨2 ^ n + 2 ^ n - 1 - cell.y, 2 ^ n - 1 - cell.x⟩)
      (placed k corner q hand ⟨2 ^ n + 2 ^ n - 1, 0⟩) (q + hand.toInt) := by
  have hunit := hand.natAbs_toInt
  have hroute := h (placed k corner q hand ⟨2 ^ n + 2 ^ n - 1, 2 ^ n - 1⟩) (q + hand.toInt) (by omega)
    fun cell hcell => by
      have hcell := mem_cells.mp hcell
      rw [placed_back]
      apply hrange <;> dsimp only <;> omega
  rw [placed_back, sub_zero, sub_self] at hroute
  rwa [← funext (placed_back k corner q hand ⟨2 ^ n + 2 ^ n - 1, 2 ^ n - 1⟩)]

section

variable (htable : table.Has (Family.hilbert.ruleOps side)) (h : DrawsOnAxes trig distance side k most)
  (hmost : most < 2 ^ 40)

section

include h

/-- Between the second quarter and the third: a step ahead. -/
theorem route_ahead (hq : q.natAbs < most) (hrange : SquareInRange k corner q hand (2 ^ n + 2 ^ n)) :
    Route trig ⟨some distance⟩ [.ofNumber "D" side] (placed k corner q hand ⟨0 + (2 ^ n - 1), 2 ^ n⟩) q
      [placed k corner q hand ⟨2 ^ n, 2 ^ n⟩] (placed k corner q hand ⟨2 ^ n, 2 ^ n⟩) q := by
  have hpos : (0 : Int) < 2 ^ n := by positivity
  have hahead := ahead_placed k corner q hand (0 + (2 ^ n - 1)) (2 ^ n)
  rw [zero_add, sub_add_cancel] at hahead
  rw [zero_add]
  exact route_draw h (show "D" ∈ _ by decide) hq.le hahead (hrange _ _ (by omega) (by omega) (by omega) (by omega))

end

include hmost

theorem route_turnOp {turns : Int} (hturns : turns.natAbs = 1) (hq : q.natAbs ≤ most) :
    Route trig ⟨some distance⟩ [turnOp turns] corner q [] corner (q + turns) :=
  route_turn (by omega) (by omega) (by omega)

include h

/-- Between the first quarter and the second: a step aside, and a turn ahead. -/
theorem route_aside (hq : q.natAbs < most) (hrange : SquareInRange k corner q hand (2 ^ n + 2 ^ n)) :
    Route trig ⟨some distance⟩ [.ofNumber "D" side, turnOp hand.toInt] (placed k corner q hand ⟨0, 2 ^ n - 1⟩)
      (q - hand.toInt) [placed k corner q hand ⟨0, 2 ^ n⟩] (placed k corner q hand ⟨0, 2 ^ n⟩) q := by
  have hunit := hand.natAbs_toInt
  have hpos : (0 : Int) < 2 ^ n := by positivity
  have hheading : (q - hand.toInt).natAbs ≤ most := by omega
  have hahead := ahead_placed_aside k corner q hand 0 (2 ^ n - 1)
  rw [sub_add_cancel] at hahead
  have hdraw := route_draw h (show "D" ∈ _ by decide) hheading hahead
    (hrange _ _ (by omega) (by omega) (by omega) (by omega))
  have hturn := hdraw.append (route_turnOp hmost hunit hheading)
  rwa [sub_add_cancel] at hturn

/-- Between the third quarter and the last: a turn, and a step back to the side of both corners. -/
theorem route_back (hq : q.natAbs < most) (hrange : SquareInRange k corner q hand (2 ^ n + 2 ^ n)) :
    Route trig ⟨some distance⟩ [turnOp hand.toInt, .ofNumber "D" side]
      (placed k corner q hand ⟨2 ^ n + (2 ^ n - 1), 2 ^ n⟩) q
      [placed k corner q hand ⟨2 ^ n + 2 ^ n - 1, 2 ^ n - 1⟩]
      (placed k corner q hand ⟨2 ^ n + 2 ^ n - 1, 2 ^ n - 1⟩) (q + hand.toInt) := by
  have hunit := hand.natAbs_toInt
  have hpos : (0 : Int) < 2 ^ n := by positivity
  have hahead := ahead_placed_back k corner q hand (2 ^ n + (2 ^ n - 1)) (2 ^ n)
  rw [← add_sub_assoc] at hahead ⊢
  have hdraw := route_draw h (show "D" ∈ _ by decide) (show (q + hand.toInt).natAbs ≤ most by omega) hahead
    (hrange _ _ (by omega) (by omega) (by omega) (by omega))
  exact (route_turnOp hmost hunit hq.le).append hdraw

include htable

/-- Every level visits the cells of its square. -/
theorem visits (n : Nat) (hand : TurnSign) : Visits table trig distance k most n hand := by
  induction n generalizing hand with
  | zero =>
      intro corner q _ _
      have hend : placed k corner q hand ⟨2 ^ 0 - 1, 0⟩ = corner := placed_zero k corner q hand
      rw [hend]
      cases hand with
      | negative => exact route_bare (Or.inr rfl)
      | positive => exact route_bare (Or.inl rfl)
  | succ n ih =>
      intro corner q hq hrange
      have hunit := hand.natAbs_toInt
      have hlt : q.natAbs + n < most := by omega
      have hpow : (2 : Int) ^ (n + 1) = 2 ^ n + 2 ^ n := by rw [pow_succ, mul_two]
      have hsquare : SquareInRange k corner q hand (2 ^ n + 2 ^ n) := by
        intro x y hx hx' hy hy'
        refine hrange _ (mem_cells.mpr ?_)
        rw [hpow]
        exact ⟨⟨hx, hx'⟩, hy, hy'⟩
      have hlead : Route trig ⟨some distance⟩ [.ofNumber "S" 0.25, turnOp (-hand.toInt)] corner q [] corner
          (q - hand.toInt) :=
        (route_rescale 0.25).append (route_turnOp hmost (by omega) (by omega))
      have hturn : Route trig ⟨some distance⟩ [turnOp (-hand.toInt)] (placed k corner q hand ⟨2 ^ n + 2 ^ n - 1, 0⟩)
          (q + hand.toInt) [] (placed k corner q hand ⟨2 ^ n + 2 ^ n - 1, 0⟩) (q + hand.toInt + -hand.toInt) :=
        route_turnOp hmost (by omega) (by omega)
      rw [add_neg_cancel_right] at hturn
      have hfirst := hlead.append ((ih hand.flipped).across hlt hsquare)
      have hsecond := (route_aside h hmost (by omega) hsquare).append
        ((ih hand).further hlt.le ⟨0, 2 ^ n⟩ (by simp) hsquare)
      have hthird := (route_ahead h (by omega) hsquare).append
        ((ih hand).further hlt.le ⟨2 ^ n, 2 ^ n⟩ (by simp) hsquare)
      have hfourth := (route_back h hmost (by omega) hsquare).append ((ih hand.flipped).back hlt hsquare)
      have hroute := (((hfirst.append hsecond).append hthird).append hfourth).append (hturn.append (route_rescale 4))
      rw [generation_curve htable, tail_cells, hpow]
      simpa [Function.comp_def] using hroute

end

/-! ### The square of a walk from the origin -/

section

variable {k : Int} (hk : 0 < k) {n : Nat} (hrange : k * (2 ^ n - 1) < int64Limit)

theorem placed_origin (k x y : Int) : placed k ⟨0, 0⟩ 0 .positive ⟨x, y⟩ = ⟨k * x, -(k * y)⟩ := by
  simp [placed, Cell.ahead, Cell.axis, TurnSign.toInt]

include hk hrange

theorem level_lt : n < 64 := by
  have hlimit : int64Limit < 2 ^ 64 - 1 := by decide
  by_contra hle
  have hhigh : (2 : Int) ^ 64 ≤ 2 ^ n := pow_le_pow_right₀ one_le_two (Nat.le_of_not_lt hle)
  have hone : (2 : Int) ^ n - 1 ≤ k * (2 ^ n - 1) := le_mul_of_one_le_left (by omega) (by omega)
  omega

theorem placed_origin_inRange : ∀ cell ∈ cells n, (placed k ⟨0, 0⟩ 0 .positive cell).InRange := by
  intro cell hcell
  obtain ⟨⟨hx, hx'⟩, hy, hy'⟩ := mem_cells.mp hcell
  have hside : ∀ z : Int, 0 ≤ z → z < 2 ^ n → 0 ≤ k * z ∧ k * z < int64Limit := fun z hz hz' =>
    ⟨mul_nonneg hk.le hz, (mul_le_mul_of_nonneg_left (show z ≤ 2 ^ n - 1 by omega) hk.le).trans_lt hrange⟩
  obtain ⟨hkx, hkx'⟩ := hside cell.x hx hx'
  obtain ⟨hky, hky'⟩ := hside cell.y hy hy'
  have hlimit : 0 < int64Limit := by decide
  rw [placed_origin]
  constructor <;> dsimp only <;> omega

end

end Hilbert

/-- An ant that has visited every cell of a square of `2 ^ n` steps to the side once, one step being `k` cells, and has
come from the origin to the end of the side ahead. -/
structure Ant.FilledSquare (ant : Ant) (k n : Nat) : Prop where
  length_path : ant.path.length = 4 ^ n
  nodup_path : ant.path.Nodup
  mem_path : ∀ cell, cell ∈ ant.path ↔ ∃ i j : Nat, i < 2 ^ n ∧ j < 2 ^ n ∧ cell = ⟨k * i, -(k * j)⟩
  position : ant.position = ⟨k * (2 ^ n - 1), 0⟩
  angle : ant.angle = 0

theorem Ant.filledSquare_of_path {ant : Ant} {k n : Nat} (hk : 0 < k)
    (hpath : ant.path = (Hilbert.cells n).map (Hilbert.placed k ⟨0, 0⟩ 0 .positive))
    (hat : ant.At (Hilbert.placed k ⟨0, 0⟩ 0 .positive ⟨2 ^ n - 1, 0⟩) 0) : ant.FilledSquare k n := by
  have hk : (k : Int) ≠ 0 := by omega
  have hside : ((2 ^ n : Nat) : Int) = 2 ^ n := by rw [Nat.cast_pow, Nat.cast_ofNat]
  have hinjective : Function.Injective (Hilbert.placed k ⟨0, 0⟩ 0 .positive) := by
    rintro ⟨x, y⟩ ⟨x', y'⟩ heq
    rw [Hilbert.placed_origin, Hilbert.placed_origin, Cell.mk.injEq, neg_inj] at heq
    exact congrArg₂ Cell.mk (mul_left_cancel₀ hk heq.1) (mul_left_cancel₀ hk heq.2)
  refine ⟨?_, ?_, fun cell => ?_, ?_, hat.angle⟩
  · rw [hpath, List.length_map, Hilbert.length_cells]
  · rw [hpath]
    exact (Hilbert.nodup_cells n).map hinjective
  · rw [hpath, List.mem_map]
    constructor
    · rintro ⟨⟨x, y⟩, hcell, rfl⟩
      obtain ⟨⟨hx, hx'⟩, hy, hy'⟩ := Hilbert.mem_cells.mp hcell
      dsimp only at hx hx' hy hy'
      refine ⟨x.toNat, y.toNat, by omega, by omega, ?_⟩
      rw [Hilbert.placed_origin, Int.toNat_of_nonneg hx, Int.toNat_of_nonneg hy]
    · rintro ⟨i, j, hi, hj, rfl⟩
      exact ⟨⟨i, j⟩, Hilbert.mem_cells.mpr (by dsimp only; omega), Hilbert.placed_origin k i j⟩
  · rw [hat.position, Hilbert.placed_origin, mul_zero, neg_zero]

section

variable {trig : Trigonometry} {side distance step : Float} {k n : Nat}

/-- The `n`-th generation of the Hilbert curve fills a square. Its draw steps go `k` cells, the product of the side and
the distance, and headings are exact for up to `n` quarter turns. -/
theorem Family.hilbert_fills_square (hside : Parameter.sideLength.checkLength side = .ok ())
    (hdistance : distance.isFinite = true) (hstep : step.isFinite = true) (hk : 0 < k) (hvalue : toRat step = k)
    (hproduct : toRat distance * toRat side = k) (haxes : trig.OnAxes step k n)
    (hrange : (k : Int) * (2 ^ n - 1) < int64Limit) :
    Family.hilbert.seed side = .ok [⟨"A", none⟩] ∧
      ∃ table, Family.hilbert.table side = .ok table ∧
        (Walk.alongBy trig { distance := some distance } (table.generation [⟨"A", none⟩] n)).ant.FilledSquare k n := by
  have hpos : (0 : Int) < k := by exact_mod_cast hk
  have hdraws := Ant.drawsOnAxes_of_product hside hdistance hstep hpos hvalue hproduct haxes
  have hlevel := Hilbert.level_lt hpos hrange
  obtain ⟨table, htable, hhas⟩ := Family.hilbertTable_eq hside
  have hstart : (Ant.start 0 0).At ⟨0, 0⟩ 0 := ⟨rfl, rfl, rfl, rfl⟩
  obtain ⟨hat, htrail⟩ := Hilbert.visits hhas hdraws (by omega) n .positive ⟨0, 0⟩ 0 (by omega)
    (Hilbert.placed_origin_inRange hpos hrange) _ hstart
  refine ⟨Family.seed_eq hside .hilbert, table, htable, ?_⟩
  rw [Walk.alongBy_eq]
  refine Ant.filledSquare_of_path hk ?_ hat
  have hcorner : Hilbert.placed k ⟨0, 0⟩ 0 .positive ⟨0, 0⟩ = ⟨0, 0⟩ := Hilbert.placed_zero k ⟨0, 0⟩ 0 .positive
  rw [Hilbert.cells_eq_cons, List.map_cons, hcorner]
  unfold Ant.path
  exact (congrArg List.reverse htrail).trans (by simp [Ant.start])

/-- Sine and cosine of up to half a turn in quarters, rounded to the nearest doubles. -/
def Trigonometry.halfTurn : Trigonometry where
  sin x :=
    if x == 0 then 0
    else if x == 1.5707963267948966 then 1
    else if x == -1.5707963267948966 then -1
    else if 0 < x then 1.2246467991473532e-16
    else -1.2246467991473532e-16
  cos x :=
    if x == 0 then 1
    else if x.abs == 1.5707963267948966 then 6.123233995736766e-17
    else -1

theorem Trigonometry.halfTurn_onAxes : Trigonometry.halfTurn.OnAxes 1 1 2 := by
  have hcases : ∀ q : Int, q.natAbs ≤ 2 → q = -2 ∨ q = -1 ∨ q = 0 ∨ q = 1 ∨ q = 2 := by
    intro q hq
    omega
  constructor
  · intro q hq
    rcases hcases q hq with rfl | rfl | rfl | rfl | rfl <;> decide +kernel
  · intro q hq
    rcases hcases q hq with rfl | rfl | rfl | rfl | rfl <;> decide +kernel

/-- Sixteen cells in steps of one. -/
theorem Family.hilbert_fills_square_sixteen :
    ∃ table, Family.hilbert.table 1 = .ok table ∧
      (Walk.alongBy .halfTurn { distance := some 1 } (table.generation [⟨"A", none⟩] 2)).ant.FilledSquare 1 2 := by
  have hside : Parameter.sideLength.checkLength 1 = .ok () := Parameter.checkLength_eq_ok_iff.mpr (by decide +kernel)
  have hfinite : (1 : Float).isFinite = true := by decide +kernel
  have hone : toRat 1 = (1 : Nat) := toRat_ofInt (show (1 : Int).natAbs < 2 ^ 53 by decide)
  have hproduct : toRat 1 * toRat 1 = (1 : Nat) := by
    rw [hone, Nat.cast_one, mul_one]
  exact (hilbert_fills_square hside hfinite hfinite Nat.one_pos hone hproduct Trigonometry.halfTurn_onAxes
    (by decide)).2

end

end TurtleChain
