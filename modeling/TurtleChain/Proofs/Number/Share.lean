import TurtleChain.Proofs.Number.Arithmetic

/-! Shares: the quotient of two naturals as doubles. Rounding may make equal shares of different parts, but a greater
part never has a smaller share, and the whole has a share of exactly one. -/

namespace TurtleChain.Binary64

/-- Rounding keeps the order. -/
theorem ofMagnitudeBits_roundedBits_le {q q' : ℚ} (hq : 0 ≤ q) (hle : q ≤ q') (hq' : roundedBits q' < infinityBits) :
    ofMagnitudeBits false (roundedBits q) ≤ ofMagnitudeBits false (roundedBits q') := by
  have hmono := roundedBits_mono hq hle
  have hbits := magnitudeBits_ofMagnitudeBits (roundedBits_le q) false
  have hbits' := magnitudeBits_ofMagnitudeBits (roundedBits_le q') false
  have hfinite : (ofMagnitudeBits false (roundedBits q)).isFinite = true := by
    rw [isFinite_iff, hbits]
    exact hmono.trans_lt hq'
  have hfinite' : (ofMagnitudeBits false (roundedBits q')).isFinite = true := by
    rw [isFinite_iff, hbits']
    exact hq'
  rw [le_iff_signedBits hfinite hfinite', signedBits_of_nonneg (isNegative_ofMagnitudeBits (roundedBits_le q) false),
    signedBits_of_nonneg (isNegative_ofMagnitudeBits (roundedBits_le q') false), hbits, hbits']
  exact_mod_cast hmono

theorem one_eq : (1 : Float) = ofMagnitudeBits false (roundedBits 1) := by
  have hone := ofNat_eq 1
  rwa [Nat.cast_one] at hone

theorem roundedBits_one_lt : roundedBits 1 < infinityBits := by
  rw [← oneBits_eq]
  decide

theorem magnitude_ofNat_le {m n : Nat} (hle : m ≤ n) (hn : n ≤ 2 ^ 64) :
    magnitude (Float.ofNat m) ≤ magnitude (Float.ofNat n) := by
  rw [magnitude_le_iff (isFinite_iff.mp (isFinite_ofNat (hle.trans hn))) (isFinite_iff.mp (isFinite_ofNat hn)),
    magnitudeBits_ofNat, magnitudeBits_ofNat]
  exact roundedBits_mono (Nat.cast_nonneg m) (by exact_mod_cast hle)

section

variable {part whole : Nat} (hwhole : whole ≤ 2 ^ 64) (hpart : part ≤ whole)

include hwhole hpart

theorem exact_share_le_one : magnitude (Float.ofNat part) / magnitude (Float.ofNat whole) ≤ 1 :=
  div_le_one_of_le₀ (magnitude_ofNat_le hpart hwhole) (magnitude_nonneg _)

variable (hpos : 0 < whole)

include hpos

theorem share_eq :
    Float.ofNat part / Float.ofNat whole =
      ofMagnitudeBits false (roundedBits (magnitude (Float.ofNat part) / magnitude (Float.ofNat whole))) := by
  rw [div_eq (isFinite_ofNat (hpart.trans hwhole)) (isFinite_ofNat hwhole) (magnitudeBits_ofNat_pos hpos)]
  congr 1
  rw [ofNat_eq, ofNat_eq, isNegative_ofMagnitudeBits (roundedBits_le _), isNegative_ofMagnitudeBits (roundedBits_le _)]
  rfl

theorem share_le_one : Float.ofNat part / Float.ofNat whole ≤ 1 := by
  rw [share_eq hwhole hpart hpos, one_eq]
  exact ofMagnitudeBits_roundedBits_le (div_nonneg (magnitude_nonneg _) (magnitude_nonneg _))
    (exact_share_le_one hwhole hpart) roundedBits_one_lt

theorem share_mono {part' : Nat} (hle : part' ≤ part) :
    Float.ofNat part' / Float.ofNat whole ≤ Float.ofNat part / Float.ofNat whole := by
  rw [share_eq hwhole (hle.trans hpart) hpos, share_eq hwhole hpart hpos]
  refine ofMagnitudeBits_roundedBits_le (div_nonneg (magnitude_nonneg _) (magnitude_nonneg _)) ?_ ?_
  · exact div_le_div_of_nonneg_right (magnitude_ofNat_le hle (hpart.trans hwhole)) (magnitude_nonneg _)
  · have hone := exact_share_le_one hwhole hpart
    exact (roundedBits_mono (div_nonneg (magnitude_nonneg _) (magnitude_nonneg _)) hone).trans_lt roundedBits_one_lt

end

theorem share_zero {whole : Nat} (hwhole : whole ≤ 2 ^ 64) (hpos : 0 < whole) :
    Float.ofNat 0 / Float.ofNat whole = 0 := by
  have hzero : magnitude (Float.ofNat 0) = 0 := magnitude_eq_zero_iff.mpr (by decide)
  rw [share_eq hwhole hpos.le hpos, hzero, zero_div, roundedBits_zero]
  decide

theorem share_self {whole : Nat} (hwhole : whole ≤ 2 ^ 64) (hpos : 0 < whole) :
    Float.ofNat whole / Float.ofNat whole = 1 := by
  have hne : magnitude (Float.ofNat whole) ≠ 0 := mt magnitude_eq_zero_iff.mp (magnitudeBits_ofNat_pos hpos).ne'
  rw [share_eq hwhole le_rfl hpos, div_self hne, one_eq]

end TurtleChain.Binary64
