import TurtleChain.Proofs.Curve.ClosedForms
import TurtleChain.Proofs.Walk.Hilbert
import TurtleChain.Proofs.Walk.History

/-! The walk along an E-curve. A rule leads through a square of five segments to the side, from a corner to the next
one, and every curve of the rule has a square of its own in there. So a generation keeps to the square of the segment
that it replaces, and ends where the segment ends, for both hands, all headings, and every cell to start from. -/

namespace TurtleChain

open Binary64

namespace Cell

/-- Headings add up as directions multiply. -/
theorem axis_add (q r : Int) : axis (q + r) =
    ⟨(axis q).x * (axis r).x - (axis q).y * (axis r).y, (axis q).x * (axis r).y + (axis q).y * (axis r).x⟩ := by
  induction r using Int.induction_on with
  | zero => simp [axis]
  | succ r ih =>
      rw [← add_assoc, axis_add_one, ih, axis_add_one, Cell.mk.injEq]
      constructor <;> ring
  | pred r ih =>
      rw [← add_sub_assoc, axis_sub_one, ih, axis_sub_one, Cell.mk.injEq]
      constructor <;> ring

/-- The cell of these coordinates, in steps of some length from a corner: ahead, and to the side of positive turns. -/
def framed (length : Int) (corner : Cell) (q : Int) (cell : Cell) : Cell :=
  (corner.ahead q (length * cell.x)).ahead (q + 1) (length * cell.y)

section

variable (length : Int) (corner : Cell) (q : Int)

theorem framed_zero : framed length corner q ⟨0, 0⟩ = corner := by
  simp [framed, ahead]

theorem framed_origin (cell : Cell) : framed length ⟨0, 0⟩ 0 cell = ⟨length * cell.x, length * cell.y⟩ := by
  simp [framed, ahead, axis]

theorem framed_side (sides : Int) : framed length corner q ⟨sides, 0⟩ = corner.ahead q (length * sides) := by
  simp [framed, ahead]

/-- What is placed in a frame that is itself placed in a frame. -/
theorem framed_framed (cell : Cell) (r : Int) (inner : Cell) :
    framed length (framed length corner q cell) (q + r) inner = framed length corner q (framed 1 cell r inner) := by
  simp only [framed, ahead, axis_add_one, axis_add q r, Cell.mk.injEq]
  constructor <;> ring

theorem ahead_framed (cell : Cell) (r : Int) :
    (framed length corner q cell).ahead (q + r) length = framed length corner q (cell.ahead r 1) := by
  simp only [framed, ahead, axis_add_one, axis_add q r, Cell.mk.injEq]
  constructor <;> ring

end

end Cell

namespace ECurve

open Ant Cell

/-- In the square ahead, on the side of the hand. -/
def Inside (hand : TurnSign) (sides : Int) (cell : Cell) : Prop :=
  (0 ≤ cell.x ∧ cell.x ≤ sides) ∧ 0 ≤ hand.toInt * cell.y ∧ hand.toInt * cell.y ≤ sides

instance (hand : TurnSign) (sides : Int) (cell : Cell) : Decidable (Inside hand sides cell) :=
  inferInstanceAs (Decidable (_ ∧ _))

/-- The corners between which the square lies are in the range of coordinates. -/
structure SquareInRange (length : Int) (corner : Cell) (q : Int) (hand : TurnSign) : Prop where
  near : corner.InRange
  far : (framed length corner q ⟨1, hand.toInt⟩).InRange

section

variable {length sides : Int} {corner cell : Cell} {q r : Int} {hand hand' : TurnSign}

theorem SquareInRange.inside (h : SquareInRange (length * sides) corner q hand) (hlength : 0 ≤ length)
    (hcell : Inside hand sides cell) : (framed length corner q cell).InRange := by
  obtain ⟨⟨hx, hx'⟩, hy, hy'⟩ := hcell
  have hahead : 0 ≤ length * cell.x ∧ length * cell.x ≤ length * sides :=
    ⟨mul_nonneg hlength hx, mul_le_mul_of_nonneg_left hx' hlength⟩
  have haside : 0 ≤ hand.toInt * (length * cell.y) ∧ hand.toInt * (length * cell.y) ≤ length * sides := by
    rw [mul_left_comm]
    exact ⟨mul_nonneg hlength hy, mul_le_mul_of_nonneg_left hy' hlength⟩
  obtain ⟨hnearx, hneary⟩ := h.near
  obtain ⟨hfarx, hfary⟩ := h.far
  simp only [framed, ahead, axis_add_one, mul_one] at hfarx hfary ⊢
  generalize length * cell.x = x at *
  generalize length * cell.y = y at *
  generalize length * sides = side at *
  -- a coordinate is that of the near corner, and a part of the way to that of the far one
  rcases axis_cases q with haxis | haxis | haxis | haxis <;> rw [haxis] at hfarx hfary ⊢ <;>
    cases hand <;> simp only [TurnSign.toInt] at hfarx hfary haside <;> constructor <;> dsimp only <;> omega

/-- A square that has its corners in a square. -/
theorem SquareInRange.inner (h : SquareInRange (length * sides) corner q hand) (hlength : 0 ≤ length)
    (hcell : Inside hand sides cell) (hfar : Inside hand sides (framed 1 cell r ⟨1, hand'.toInt⟩)) :
    SquareInRange length (framed length corner q cell) (q + r) hand' := by
  refine ⟨h.inside hlength hcell, ?_⟩
  rw [framed_framed]
  exact h.inside hlength hfar

end

/-! ### The rules -/

/-- A cell and a heading, as they are seen from the corner. -/
structure Place where
  cell : Cell
  turns : Int
  deriving DecidableEq

/-- In the square, at a heading of half a turn or less. -/
def Place.Within (hand : TurnSign) (place : Place) : Prop :=
  place.turns.natAbs ≤ 2 ∧ Inside hand 5 place.cell

instance (hand : TurnSign) (place : Place) : Decidable (place.Within hand) :=
  inferInstanceAs (Decidable (_ ∧ _))

/-- Where a letter leads to, if it is a turn by a quarter or a curve whose square is in that of the hand. -/
def Place.next? (hand : TurnSign) (place : Place) : Letter → Option Place
  | .curve hand' =>
    if place.Within hand ∧ Inside hand 5 (framed 1 place.cell place.turns ⟨1, hand'.toInt⟩) then
      some ⟨place.cell.ahead place.turns 1, place.turns⟩
    else none
  | .segment => none
  | .turn degrees =>
    if place.Within hand ∧ degrees.natAbs = 90 then some ⟨place.cell, place.turns + degrees / 90⟩ else none

/-- Both rules lead from one corner to the next one. -/
theorem foldlM_word (hand : TurnSign) :
    (LSystem.eCurve.word hand).foldlM (Place.next? hand) ⟨⟨0, 0⟩, 0⟩ = some ⟨⟨5, 0⟩, 0⟩ := by
  revert hand
  decide

/-! ### The walk -/

section

variable (table : Table) (side : Float) (trig : Trigonometry) (distance : Float) (k : Int) (most : Nat)

/-- The operation that stands for a curve of this hand. -/
def curve (hand : TurnSign) : Operation :=
  LSystem.eCurve.op side (.curve hand)

/-- From every cell and heading, a curve of level `n` is walked like a segment of `5 ^ n` steps. -/
def Follows (n : Nat) (hand : TurnSign) : Prop :=
  ∀ (corner : Cell) (q : Int), q.natAbs + 2 * n ≤ most → SquareInRange (k * 5 ^ n) corner q hand →
    ∃ cells : List Cell, cells.length = 25 ^ n ∧
      Route trig ⟨some distance⟩ (table.generation [curve side hand] n) corner q cells
        (corner.ahead q (k * 5 ^ n)) q

/-- At this level, the letters of a rule lead from one place to another, by `25 ^ n` cells for each curve. -/
def Leads (n : Nat) (corner : Cell) (q : Int) (letters : List Letter) (place place' : Place) : Prop :=
  ∃ cells : List Cell, cells.length = letters.countP Letter.isCurve * 25 ^ n ∧
    Route trig ⟨some distance⟩ (letters.flatMap fun letter => table.generation [LSystem.eCurve.op side letter] n)
      (framed (k * 5 ^ n) corner q place.cell) (q + place.turns) cells
      (framed (k * 5 ^ n) corner q place'.cell) (q + place'.turns)

end

variable {table : Table} {side : Float} {trig : Trigonometry} {distance : Float} {k : Int} {most n : Nat}
  {hand : TurnSign} {corner : Cell} {q : Int}

theorem follows_zero (h : DrawsOnAxes trig distance side k most) (hk : 0 ≤ k) (hand : TurnSign) :
    Follows table side trig distance k most 0 hand := by
  intro corner q hq hrange
  have hname : LSystem.eCurve.curveName hand ∈ ["D", "D2", "DL", "DR"] := by
    cases hand <;> decide
  have hend : Inside hand 1 ⟨1, 0⟩ := by
    cases hand <;> decide
  rw [pow_zero] at hrange ⊢
  have hinside := hrange.inside hk hend
  rw [framed_side] at hinside
  refine ⟨[corner.ahead q (k * 1)], rfl, ?_⟩
  exact route_draw h hname (by omega) (by rw [mul_one]) hinside

theorem Leads.append {letters letters' : List Letter} {place place' place'' : Place}
    (h : Leads table side trig distance k n corner q letters place place')
    (h' : Leads table side trig distance k n corner q letters' place' place'') :
    Leads table side trig distance k n corner q (letters ++ letters') place place'' := by
  obtain ⟨cells, hcells, hroute⟩ := h
  obtain ⟨cells', hcells', hroute'⟩ := h'
  refine ⟨cells ++ cells', ?_, ?_⟩
  · rw [List.length_append, hcells, hcells', List.countP_append, Nat.add_mul]
  · rw [List.flatMap_append]
    exact hroute.append hroute'

section

variable (htable : table.Has (LSystem.eCurve.rules side)) (hmost : most < 2 ^ 40) (hk : 0 ≤ k)
  (h : ∀ hand, Follows table side trig distance k most n hand) (hq : q.natAbs + 2 * (n + 1) ≤ most)
  (hrange : SquareInRange (k * 5 ^ n * 5) corner q hand)

include htable hmost hk h hq hrange

theorem leads_letter {letter : Letter} {place place' : Place} (hnext : place.next? hand letter = some place') :
    Leads table side trig distance k n corner q [letter] place place' := by
  unfold Leads
  rw [List.flatMap_singleton, List.countP_singleton]
  cases letter with
  | curve hand' =>
      rw [Place.next?, Option.ite_none_right_eq_some] at hnext
      obtain ⟨⟨⟨hturns, hcell⟩, hfar⟩, hplace⟩ := hnext
      cases hplace
      have hlength : 0 ≤ k * 5 ^ n := by positivity
      obtain ⟨cells, hcells, hroute⟩ := h hand' (framed (k * 5 ^ n) corner q place.cell) (q + place.turns)
        (by omega) (hrange.inner hlength hcell hfar)
      rw [ahead_framed] at hroute
      exact ⟨cells, hcells.trans (Nat.one_mul _).symm, hroute⟩
  | segment => cases hnext
  | turn degrees =>
      rw [Place.next?, Option.ite_none_right_eq_some] at hnext
      obtain ⟨⟨⟨hturns, hcell⟩, hdegrees⟩, hplace⟩ := hnext
      cases hplace
      obtain ⟨quarters, rfl⟩ : ∃ quarters, degrees = 90 * quarters := ⟨degrees / 90, by omega⟩
      refine ⟨[], (Nat.zero_mul _).symm, ?_⟩
      rw [LSystem.generation_of_not_isCurve htable (LSystem.stands_op _ side (.turn (90 * quarters))) rfl,
        Int.mul_ediv_cancel_left quarters (by decide), ← Int.add_assoc]
      exact route_turn (by omega) (by omega) (by omega)

/-- Letters that lead from place to place lead there together. -/
theorem leads_letters {letters : List Letter} {place place' : Place}
    (hlast : letters.foldlM (Place.next? hand) place = some place') :
    Leads table side trig distance k n corner q letters place place' := by
  induction letters generalizing place with
  | nil =>
      cases hlast
      exact ⟨[], (Nat.zero_mul _).symm, .nil _ _ _ _⟩
  | cons letter letters ih =>
      rw [List.foldlM_cons, Option.bind_eq_bind, Option.bind_eq_some_iff] at hlast
      obtain ⟨middle, hnext, hlast⟩ := hlast
      exact (leads_letter htable hmost hk h hq hrange hnext).append (ih hlast)

end

/-- Every level follows its segment. -/
theorem follows (htable : table.Has (LSystem.eCurve.rules side)) (h : DrawsOnAxes trig distance side k most)
    (hmost : most < 2 ^ 40) (hk : 0 ≤ k) (n : Nat) (hand : TurnSign) :
    Follows table side trig distance k most n hand := by
  induction n generalizing hand with
  | zero => exact follows_zero h hk hand
  | succ n ih =>
      intro corner q hq hrange
      rw [pow_succ, ← mul_assoc] at hrange
      obtain ⟨cells, hcells, hroute⟩ := leads_letters htable hmost hk ih hq hrange (foldlM_word hand)
      rw [framed_zero, framed_side, Int.add_zero] at hroute
      have hwrapped := (route_rescale 0.2).append (hroute.append (route_rescale 5))
      rw [List.append_nil] at hwrapped
      refine ⟨cells, ?_, ?_⟩
      · rw [hcells, LSystem.eCurve_counts.curves, pow_succ, mul_comm]
      · rw [LSystem.generation_curve htable rfl, pow_succ, ← mul_assoc]
        exact hwrapped

/-- The seed draws nothing, but what replaces it does. -/
theorem generation_seed (htable : table.Has (LSystem.eCurve.rules side)) (hn : 0 < n) :
    table.generation [.ofNumber "DL" 0] n = table.generation [curve side .positive] n := by
  obtain ⟨n, rfl⟩ := Nat.exists_eq_succ_of_ne_zero hn.ne'
  have hname : (curve side .positive).name = LSystem.eCurve.curveName .positive := rfl
  exact (LSystem.generation_curve htable rfl n).trans (LSystem.generation_curve htable hname n).symm

section

variable (hk : 0 < k) (hrange : k * 5 ^ n < int64Limit)

include hk hrange

theorem level_lt : n < 64 := by
  have hpow : (2 : Int) ^ n ≤ 5 ^ n := pow_le_pow_left₀ (by decide) (by decide) n
  have hsmaller : k * (2 ^ n - 1) ≤ k * 5 ^ n := mul_le_mul_of_nonneg_left (by omega) hk.le
  exact Hilbert.level_lt hk (hsmaller.trans_lt hrange)

theorem squareInRange_origin : SquareInRange (k * 5 ^ n) ⟨0, 0⟩ 0 .positive := by
  have hpos : 0 < k * 5 ^ n := by positivity
  have hlimit : 0 < int64Limit := by decide
  constructor
  · constructor <;> dsimp only <;> omega
  · rw [framed_origin]
    constructor <;> dsimp only [TurnSign.toInt] <;> omega

end

end ECurve

section

variable {trig : Trigonometry} {side distance : Float} {k n : Nat}

/-- The `n`-th generation of the E-curve ends where a segment of `5 ^ n` steps ends, at the heading of the segment. Its
draw steps go `k` cells, and headings are exact for up to `2 * n` quarter turns. -/
theorem Family.eCurve_keeps_ends (hside : Parameter.sideLength.checkLength side = .ok ())
    (hdistance : (distance != 0) = true) (hfinite : (distance * side).isFinite = true) (hk : 0 < k)
    (haxes : trig.OnAxes (distance * side) k (2 * n)) (hn : 0 < n) (hrange : (k : Int) * 5 ^ n < int64Limit) :
    Family.eCurve.seed side = .ok [.ofNumber "DL" 0] ∧
      ∃ table, Family.eCurve.table side = .ok table ∧
        let walk := Walk.alongBy trig { distance := some distance } (table.generation [.ofNumber "DL" 0] n)
        walk.report.tally.moves = 25 ^ n ∧ walk.report.pathLength = 25 ^ n + 1 ∧
          walk.report.position = ⟨k * 5 ^ n, 0⟩ ∧ walk.report.heading = 0 := by
  have hpos : (0 : Int) < k := by exact_mod_cast hk
  obtain ⟨-, hmagnitude, -⟩ := Parameter.checkLength_eq_ok_iff.mp hside
  have hdraws : Ant.DrawsOnAxes trig distance side k (2 * n) :=
    ⟨haxes, hdistance, hfinite, Arg.number?_ofNumber (Parameter.writable_of_checkLength hside) hmagnitude, hpos.ne'⟩
  have hlevel := ECurve.level_lt hpos hrange
  obtain ⟨table, htable, hhas⟩ := table_of_system (show Family.eCurve.system? = some .eCurve from rfl) hside
  obtain ⟨cells, hcells, hroute⟩ := ECurve.follows hhas hdraws (by omega) hpos.le n .positive ⟨0, 0⟩ 0 (by omega)
    (ECurve.squareInRange_origin hpos hrange)
  refine ⟨seed_eq hside .eCurve, table, htable, ?_⟩
  rw [ECurve.generation_seed hhas hn]
  dsimp only
  rw [Walk.tally_alongBy, Walk.alongBy_eq]
  obtain ⟨hat, htrail⟩ := hroute (Ant.start 0 0) ⟨rfl, rfl, rfl, rfl⟩
  have hpath := congrArg List.length htrail
  rw [List.length_append, List.length_reverse, hcells] at hpath
  have hconsistent := (Ant.consistent_start 0 0).contextAfter trig ⟨some distance⟩
    (table.generation [ECurve.curve side .positive] n)
  have hmoves := hconsistent.length_path
  rw [hconsistent.life, Nat.zero_add, Ant.path, List.length_reverse] at hmoves
  refine ⟨?_, hpath, ?_, hat.angle⟩
  · exact Nat.succ_injective (hmoves.symm.trans hpath)
  · exact hat.position.trans (by simp [Cell.ahead, Cell.axis])

/-- One pass, in steps of one. -/
theorem Family.eCurve_keeps_ends_one_pass :
    ∃ table, Family.eCurve.table 1 = .ok table ∧
      let walk := Walk.alongBy .halfTurn { distance := some 1 } (table.generation [.ofNumber "DL" 0] 1)
      walk.report.tally.moves = 25 ∧ walk.report.pathLength = 26 ∧ walk.report.position = ⟨5, 0⟩ ∧
        walk.report.heading = 0 := by
  have hside : Parameter.sideLength.checkLength 1 = .ok () := Parameter.checkLength_eq_ok_iff.mpr (by decide +kernel)
  have hstep : (1 : Float) * 1 = 1 := by decide +kernel
  have haxes : Trigonometry.halfTurn.OnAxes (1 * 1) (1 : Nat) (2 * 1) := by
    rw [hstep]
    exact Trigonometry.halfTurn_onAxes
  exact (eCurve_keeps_ends hside (by decide +kernel) (by decide +kernel) Nat.one_pos haxes Nat.one_pos (by decide)).2

end

end TurtleChain
