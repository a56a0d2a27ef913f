import Mathlib
import TurtleChain.Walk.ActionMap

/-! The order in which a Hilbert curve visits the cells of a square. It starts in a corner and ends in the next one.
The cells are counted from the first corner, along the side between the two corners and away from it. -/

namespace TurtleChain.Hilbert

/-- The first quarter and the last one lie on the side of both corners, and are visited across. -/
def quarters (n : Nat) : List (Cell → Cell) :=
  [fun cell => ⟨cell.y, cell.x⟩, fun cell => ⟨cell.x, 2 ^ n + cell.y⟩, fun cell => ⟨2 ^ n + cell.x, 2 ^ n + cell.y⟩,
    fun cell => ⟨2 ^ n + 2 ^ n - 1 - cell.y, 2 ^ n - 1 - cell.x⟩]

/-- The cells of the curve of level `n`. A curve of the next level is made of four of them. -/
def cells : Nat → List Cell
  | 0 => [⟨0, 0⟩]
  | n + 1 => (quarters n).flatMap fun quarter => (cells n).map quarter

theorem cells_eq_cons (n : Nat) : cells n = ⟨0, 0⟩ :: (cells n).tail := by
  induction n with
  | zero => rfl
  | succ n ih =>
      rw [cells, quarters, List.flatMap_cons, ih]
      rfl

theorem length_cells (n : Nat) : (cells n).length = 4 ^ n := by
  induction n with
  | zero => rfl
  | succ n ih =>
      simp only [cells, quarters, List.flatMap_cons, List.flatMap_nil, List.length_append, List.length_map,
        List.length_nil, ih, pow_succ]
      omega

/-- Each cell of the square is one of a quarter. -/
theorem mem_cells {n : Nat} {cell : Cell} :
    cell ∈ cells n ↔ (0 ≤ cell.x ∧ cell.x < 2 ^ n) ∧ 0 ≤ cell.y ∧ cell.y < 2 ^ n := by
  induction n generalizing cell with
  | zero =>
      obtain ⟨x, y⟩ := cell
      rw [cells, List.mem_singleton, Cell.mk.injEq, pow_zero]
      dsimp only
      omega
  | succ n ih =>
      obtain ⟨x, y⟩ := cell
      have hpow : (2 : Int) ^ (n + 1) = 2 ^ n + 2 ^ n := by ring
      simp only [cells, quarters, List.flatMap_cons, List.flatMap_nil, List.append_nil, List.mem_append, List.mem_map,
        Cell.mk.injEq, ih, hpow]
      generalize (2 : Int) ^ n = side
      constructor
      · rintro (⟨c, h, rfl, rfl⟩ | ⟨c, h, rfl, rfl⟩ | ⟨c, h, rfl, rfl⟩ | ⟨c, h, rfl, rfl⟩) <;> omega
      · intro h
        by_cases hx : x < side
        · by_cases hy : y < side
          · exact Or.inl ⟨⟨y, x⟩, ⟨⟨h.2.1, hy⟩, h.1.1, hx⟩, rfl, rfl⟩
          · refine Or.inr (Or.inl ⟨⟨x, y - side⟩, ?_⟩)
            dsimp only
            omega
        · by_cases hy : y < side
          · refine Or.inr (Or.inr (Or.inr ⟨⟨side - 1 - y, side + side - 1 - x⟩, ?_⟩))
            dsimp only
            omega
          · refine Or.inr (Or.inr (Or.inl ⟨⟨x - side, y - side⟩, ?_⟩))
            dsimp only
            omega

/-- The curve has as many cells as the square, so it visits none of them twice. -/
theorem nodup_cells (n : Nat) : (cells n).Nodup := by
  have hpairs : ((cells n).map fun cell => (cell.x, cell.y)).toFinset =
      Finset.Ico (0 : Int) (2 ^ n) ×ˢ Finset.Ico (0 : Int) (2 ^ n) := by
    ext ⟨x, y⟩
    rw [List.mem_toFinset, List.mem_map, Finset.mem_product, Finset.mem_Ico, Finset.mem_Ico]
    constructor
    · rintro ⟨cell, hcell, hpair⟩
      cases hpair
      exact mem_cells.mp hcell
    · intro h
      exact ⟨⟨x, y⟩, mem_cells.mpr h, rfl⟩
  have hcard : ((cells n).map fun cell => (cell.x, cell.y)).toFinset.card =
      ((cells n).map fun cell => (cell.x, cell.y)).length := by
    have hside : ((2 : Int) ^ n).toNat = 2 ^ n := by rw [← Nat.cast_ofNat, ← Nat.cast_pow, Int.toNat_natCast]
    rw [hpairs, Finset.card_product, Int.card_Ico, List.length_map, length_cells, sub_zero, hside, ← mul_pow]
    rfl
  exact List.Nodup.of_map _ (Multiset.coe_nodup.mp (Multiset.toFinset_card_eq_card_iff_nodup.mp hcard))

end TurtleChain.Hilbert
