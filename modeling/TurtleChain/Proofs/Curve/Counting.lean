import TurtleChain.ESequence.Shape
import TurtleChain.Proofs.Number.Checked

/-! The numbers of blocks and operations of a shape. They are counted in words, one step after another, and what comes
out is the exact number if that fits, and otherwise an error: no step wraps, and none fails on the way to a number
that fits. -/

namespace TurtleChain.ESequenceShape

variable (p : ESequenceShape)

theorem blockCount_eq :
    p.blockCount =
      if p.blocksPerRow.toNat * p.rows.toNat < 2 ^ 32 then .ok (p.blocksPerRow.toNat * p.rows.toNat)
      else .error ⟨.rows, .blockOverflow p.rows.toNat p.blocksPerRow.toNat⟩ := by
  rw [blockCount, checkedMul_eq]
  exact numberOr_wordOf? _ _

theorem toNat_setWidth_toBitVec (x : UInt32) : (x.toBitVec.setWidth 64).toNat = x.toNat :=
  BitVec.toNat_setWidth_of_le (by decide)

/-- Bends and rows have 32 bits, so that the operations of one block and those at the ends of the rows always fit.
Only their product with the blocks and the last sum may be too great, and a product that is too great would not fit
as part of the sum either. -/
theorem operations?_eq (blocks : BitVec 64) :
    p.operations? blocks = wordOf? 64 ((10 * p.bends.toNat + 2) * blocks.toNat + 5 * p.rows.toNat) := by
  have hbends := p.bends.toNat_lt
  have hrows := p.rows.toNat_lt
  have hbendOps : checkedMul (p.bends.toBitVec.setWidth 64) 10 = some (.ofNat 64 (10 * p.bends.toNat)) := by
    rw [checkedMul_eq, toNat_setWidth_toBitVec, Nat.mul_comm]
    exact wordOf?_of_lt (show 10 * p.bends.toNat < 2 ^ 64 by omega)
  have hperBlock : checkedAdd (.ofNat 64 (10 * p.bends.toNat)) 2 =
      some (BitVec.ofNat 64 (10 * p.bends.toNat + 2)) := by
    rw [checkedAdd_eq, toNat_ofNat_of_lt (by omega)]
    exact wordOf?_of_lt (show 10 * p.bends.toNat + 2 < 2 ^ 64 by omega)
  have hrowEnds : (5 * p.rows.toBitVec.setWidth 64).toNat = 5 * p.rows.toNat := by
    rw [BitVec.toNat_mul, toNat_setWidth_toBitVec]
    exact Nat.mod_eq_of_lt (show 5 * p.rows.toNat < 2 ^ 64 by omega)
  simp only [operations?, Option.bind_eq_bind]
  rw [hbendOps, Option.bind_some, hperBlock, Option.bind_some, checkedMul_eq, toNat_ofNat_of_lt (by omega),
    wordOf?_bind_checkedAdd, hrowEnds]

theorem operationCount_of_error {e : InvalidParameter} (h : p.blockCount = .error e) : p.operationCount = .error e := by
  rw [operationCount, h]
  rfl

theorem operationCount_of_ok {blocks : Nat} (h : p.blockCount = .ok blocks) :
    p.operationCount =
      if (10 * p.bends.toNat + 2) * blocks + 5 * p.rows.toNat < 2 ^ 64 then
        .ok ((10 * p.bends.toNat + 2) * blocks + 5 * p.rows.toNat)
      else .error ⟨.bends, .operationOverflow p.bends.toNat blocks⟩ := by
  have hblocks : blocks < 2 ^ 64 := by
    rw [blockCount_eq] at h
    split_ifs at h with hlt
    rw [Except.ok.injEq] at h
    omega
  rw [operationCount, h]
  show numberOr _ (p.operations? (.ofNat 64 blocks)) = _
  rw [operations?_eq, toNat_ofNat_of_lt hblocks, numberOr_wordOf?]

/-- Whatever the shape, valid or not, its blocks are counted exactly if their number fits 32 bits, and its operations
if that number does and their own fits 64 bits. -/
theorem counts_exact_or_refused (p : ESequenceShape) :
    let blocks := p.blocksPerRow.toNat * p.rows.toNat
    let operations := (10 * p.bends.toNat + 2) * blocks + 5 * p.rows.toNat
    p.blockCount =
        (if blocks < 2 ^ 32 then .ok blocks
        else .error ⟨.rows, .blockOverflow p.rows.toNat p.blocksPerRow.toNat⟩) ∧
      p.operationCount =
        if blocks < 2 ^ 32 then
          if operations < 2 ^ 64 then .ok operations
          else .error ⟨.bends, .operationOverflow p.bends.toNat blocks⟩
        else .error ⟨.rows, .blockOverflow p.rows.toNat p.blocksPerRow.toNat⟩ := by
  intro blocks operations
  have hcount := p.blockCount_eq
  refine ⟨hcount, ?_⟩
  by_cases hblocks : blocks < 2 ^ 32
  · rw [if_pos hblocks] at hcount ⊢
    exact p.operationCount_of_ok hcount
  · rw [if_neg hblocks] at hcount ⊢
    exact p.operationCount_of_error hcount

/-- With the most bends there can be, the last number of blocks that fits and the next one. -/
example :
    operationCount { bends := 4294967295, blocksPerRow := 429496729, rows := 1 } = .ok 18446744044503774013 ∧
      operationCount { bends := 4294967295, blocksPerRow := 429496730, rows := 1 } =
        .error ⟨.bends, .operationOverflow 4294967295 429496730⟩ :=
  ⟨rfl, rfl⟩

end TurtleChain.ESequenceShape
