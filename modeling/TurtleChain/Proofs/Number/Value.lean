import TurtleChain.Proofs.Number.Order
import TurtleChain.Proofs.Number.Rounding

/-! The values of the finite doubles as exact rationals. The double nearest to a rational depends on it alone, a
double is nearest to its own value, and a rational with a significand of 53 bits is the value of a double. -/

namespace TurtleChain.Binary64

/-- The absolute value of a finite double. -/
def magnitude (x : Float) : ℚ :=
  significand x * 2 ^ scale x

/-- The magnitude bits of the double nearest to a rational without its sign. -/
def roundedBits (q : ℚ) : Nat :=
  nearestBits q.num.natAbs q.den

/-- The exponent of two of the last bit that a double near `q` has. -/
def unitScale (q : ℚ) : Int :=
  max minScale (Int.log 2 q - fractionBits)

theorem magnitude_nonneg (x : Float) : 0 ≤ magnitude x := by
  unfold magnitude
  positivity

theorem natAbs_num_div_den {q : ℚ} (h : 0 ≤ q) : (q.num.natAbs : ℚ) / q.den = q := by
  have hnum : ((q.num.natAbs : Int) : ℚ) = q.num := by
    rw [Int.natAbs_of_nonneg (Rat.num_nonneg.mpr h)]
  rw [← Int.cast_natCast, hnum, Rat.num_div_den]

theorem nearestBits_eq_roundedBits (num : Nat) {den : Nat} (hden : 0 < den) :
    nearestBits num den = roundedBits (num / den) := by
  have hnonneg : (0 : ℚ) ≤ num / den := by positivity
  have hdiv := natAbs_num_div_den hnonneg
  apply nearestBits_congr hden (Rat.den_pos _)
  rw [div_eq_div_iff (by positivity) (by positivity)] at hdiv
  exact_mod_cast hdiv.symm

theorem roundedBits_le (q : ℚ) : roundedBits q ≤ infinityBits := by
  rw [roundedBits, nearestBits]
  split
  · exact Nat.zero_le _
  · exact Nat.min_le_left _ _

theorem roundedBits_zero : roundedBits 0 = 0 :=
  nearestBits_zero _

theorem roundedBits_mono {q q' : ℚ} (hq : 0 ≤ q) (h : q ≤ q') : roundedBits q ≤ roundedBits q' := by
  apply nearestBits_mono (Rat.den_pos q) (Rat.den_pos q')
  rw [← quotient_le_quotient (Rat.den_pos q) (Rat.den_pos q'), natAbs_num_div_den hq,
    natAbs_num_div_den (hq.trans h)]
  exact h

/-- A double is the one nearest to its value. -/
theorem roundedBits_magnitude {x : Float} (h : magnitudeBits x < infinityBits) :
    roundedBits (magnitude x) = magnitudeBits x := by
  rw [magnitude, ← value_eq, ← nearestBits_eq_roundedBits _ (by positivity)]
  exact nearestBits_exact h

theorem magnitude_congr {x y : Float} (h : magnitudeBits x = magnitudeBits y) : magnitude x = magnitude y := by
  obtain ⟨hscale, hsignificand⟩ := (magnitudeBits_eq_iff x y).mp h
  rw [magnitude, magnitude, hscale, hsignificand]

theorem magnitude_le_iff {x y : Float} (hx : magnitudeBits x < infinityBits) (hy : magnitudeBits y < infinityBits) :
    magnitude x ≤ magnitude y ↔ magnitudeBits x ≤ magnitudeBits y := by
  rw [← roundedBits_magnitude hx, ← roundedBits_magnitude hy]
  refine ⟨roundedBits_mono (magnitude_nonneg x), fun h => ?_⟩
  rcases le_or_gt (magnitude x) (magnitude y) with hle | hlt
  · exact hle
  · have hge := roundedBits_mono (magnitude_nonneg y) hlt.le
    rw [roundedBits_magnitude hx, roundedBits_magnitude hy] at h hge
    exact (magnitude_congr (Nat.le_antisymm h hge)).le

theorem magnitude_eq_zero_iff {x : Float} : magnitude x = 0 ↔ magnitudeBits x = 0 := by
  have hcases := significand_cases x
  have hbits := magnitudeBits_eq x
  have hpow : (2 : ℚ) ^ scale x ≠ 0 := zpow_ne_zero _ two_ne_zero
  rw [magnitude, mul_eq_zero, or_iff_left hpow, Nat.cast_eq_zero]
  omega

/-! ### Rounding at the unit -/

theorem roundQuotient_congr {num den num' den' : Nat} (hden : 0 < den) (hden' : 0 < den')
    (h : num * den' = num' * den) : roundQuotient num den = roundQuotient num' den' :=
  Nat.le_antisymm (roundQuotient_mono hden hden' h.le) (roundQuotient_mono hden' hden h.ge)

theorem log2_mul_two_pow {m : Nat} (hm : 0 < m) (n : Nat) : (m * 2 ^ n).log2 = m.log2 + n := by
  rw [Nat.log2_eq_iff (by positivity), pow_add, add_right_comm, pow_add]
  exact ⟨Nat.mul_le_mul_right _ (Nat.log2_self_le hm.ne'),
    Nat.mul_lt_mul_of_pos_right Nat.lt_log2_self (by positivity)⟩

theorem log_mul_zpow {q : ℚ} (hq : 0 < q) (e : Int) : Int.log 2 (q * 2 ^ e) = Int.log 2 q + e := by
  have hunit : (0 : ℚ) < 2 ^ e := zpow_pos two_pos e
  have hpos : 0 < q * 2 ^ e := by positivity
  have hlow : (2 : ℚ) ^ (Int.log 2 q + e) ≤ q * 2 ^ e := by
    rw [zpow_add₀ two_ne_zero]
    exact mul_le_mul_of_nonneg_right (Int.zpow_log_le_self one_lt_two hq) hunit.le
  have hhigh : q * 2 ^ e < 2 ^ (Int.log 2 q + e + 1) := by
    rw [add_right_comm, zpow_add₀ two_ne_zero]
    exact mul_lt_mul_of_pos_right (Int.lt_zpow_succ_log_self one_lt_two q) hunit
  have hle := (Int.zpow_le_iff_le_log one_lt_two hpos).mp hlow
  have hlt := (Int.lt_zpow_iff_log_lt one_lt_two hpos).mp hhigh
  omega

theorem unitScale_mul_zpow {m : Nat} (hm : 0 < m) (e : Int) :
    unitScale (m * 2 ^ e) = max minScale (m.log2 + e - 52) := by
  rw [unitScale, log_mul_zpow (by exact_mod_cast hm), Int.log_natCast, ← Nat.log2_eq_log_two, fractionBits,
    Nat.cast_ofNat]

theorem quotient_mul_zpow (num den : Nat) (e : Int) :
    (num / den : ℚ) * 2 ^ e = ((num * 2 ^ e.toNat : Nat) : ℚ) / (den * 2 ^ (-e).toNat : Nat) := by
  rw [zpow_eq_div, div_mul_div_comm]
  push_cast
  rfl

section

variable {num den : Nat} {e : Int} (hnum : 0 < num) (hden : 0 < den)

include hnum hden

theorem lastScale_eq_unitScale :
    lastScale (num * 2 ^ e.toNat) (den * 2 ^ (-e).toNat) = unitScale (num / den * 2 ^ e) := by
  rw [lastScale, floorLog2_eq_log (by positivity) (by positivity), ← quotient_mul_zpow, unitScale]

variable (h : e ≤ unitScale (num / den * 2 ^ e))

include h

theorem rounded_eq_roundQuotient :
    rounded (num * 2 ^ e.toNat) (den * 2 ^ (-e).toNat) =
      roundQuotient num (den * 2 ^ (unitScale (num / den * 2 ^ e) - e).toNat) := by
  rw [rounded, lastScale_eq_unitScale hnum hden]
  apply roundQuotient_congr (by positivity) (by positivity)
  generalize unitScale (num / den * 2 ^ e) = k at h
  have hexponent : e.toNat + (-k).toNat + (k - e).toNat = (-e).toNat + k.toNat := by omega
  calc num * 2 ^ e.toNat * 2 ^ (-k).toNat * (den * 2 ^ (k - e).toNat)
      = num * (den * 2 ^ (e.toNat + (-k).toNat + (k - e).toNat)) := by rw [pow_add, pow_add]; ring
    _ = num * (den * 2 ^ (-e).toNat * 2 ^ k.toNat) := by rw [hexponent, pow_add, Nat.mul_assoc]

/-- Bits in front are kept, and the ones behind the unit are rounded off. -/
theorem roundedBits_quotient_mul_zpow :
    roundedBits (num / den * 2 ^ e) = min infinityBits ((unitScale (num / den * 2 ^ e) - minScale).toNat * 2 ^ 52 +
      roundQuotient num (den * 2 ^ (unitScale (num / den * 2 ^ e) - e).toNat)) := by
  have hbits := nearestBits_eq (show 0 < num * 2 ^ e.toNat by positivity) (den * 2 ^ (-e).toNat)
  rwa [nearestBits_eq_roundedBits _ (by positivity), ← quotient_mul_zpow, lastScale_eq_unitScale hnum hden,
    rounded_eq_roundQuotient hnum hden h] at hbits

end

theorem roundedBits_mul_zpow {m : Nat} (hm : 0 < m) {e : Int} (h : e ≤ unitScale (m * 2 ^ e)) :
    roundedBits (m * 2 ^ e) = min infinityBits ((unitScale (m * 2 ^ e) - minScale).toNat * 2 ^ 52 +
      roundQuotient m (2 ^ (unitScale (m * 2 ^ e) - e).toNat)) := by
  have hone : ((m : ℚ) / (1 : Nat)) = m := by rw [Nat.cast_one, div_one]
  have hbits := roundedBits_quotient_mul_zpow hm Nat.one_pos (e := e)
  rw [hone, Nat.one_mul] at hbits
  exact hbits h

/-! ### Numbers of 53 bits -/

/-- The value of a double by its bits. -/
theorem magnitude_eq_of_bits {x : Float} {k : Int} {r : Nat} (hk : minScale ≤ k) (hr : r < 2 ^ 53)
    (hfull : minScale < k → 2 ^ 52 ≤ r) (hbits : magnitudeBits x = (k - minScale).toNat * 2 ^ 52 + r) :
    magnitude x = r * 2 ^ k := by
  have hcases := significand_cases x
  have hsplit := magnitudeBits_eq x
  have hfraction := fraction_lt x
  have hvalue : significand x = r ∧ scale x = k ∨ r = 0 ∧ significand x = 0 := by omega
  rcases hvalue with ⟨hsignificand, hscale⟩ | ⟨hzero, hsignificand⟩
  · rw [magnitude, hsignificand, hscale]
  · rw [magnitude, hzero, hsignificand, Nat.cast_zero, zero_mul, zero_mul]

/-- A rational with a significand of 53 bits is the value of the double nearest to it. -/
theorem magnitude_of_bits_eq {x : Float} {m : Nat} {e : Int} (hm : m < 2 ^ 53) (he : minScale ≤ e)
    (hfinite : roundedBits (m * 2 ^ e) < infinityBits) (hx : magnitudeBits x = roundedBits (m * 2 ^ e)) :
    magnitude x = m * 2 ^ e := by
  rcases Nat.eq_zero_or_pos m with rfl | hpos
  · rw [Nat.cast_zero, zero_mul] at hx ⊢
    exact magnitude_eq_zero_iff.mpr (hx.trans roundedBits_zero)
  · have hunit := unitScale_mul_zpow hpos e
    have hlog : m.log2 < 53 := (Nat.log2_lt hpos.ne').mpr hm
    obtain ⟨n, hn⟩ := Int.eq_ofNat_of_zero_le (show 0 ≤ e - unitScale (m * 2 ^ e) by omega)
    have hscaled : (m : ℚ) * 2 ^ e = (m * 2 ^ n : Nat) * 2 ^ unitScale (m * 2 ^ e) := by
      rw [Nat.cast_mul, Nat.cast_pow, Nat.cast_ofNat, mul_assoc, ← zpow_natCast, ← zpow_add₀ two_ne_zero]
      congr 2
      omega
    have hlog' := log2_mul_two_pow hpos n
    have hunit' : unitScale ((m * 2 ^ n : Nat) * 2 ^ unitScale (m * 2 ^ e)) = unitScale (m * 2 ^ e) := by
      rw [← hscaled]
    rw [hscaled] at hx hfinite ⊢
    generalize unitScale (m * 2 ^ e) = k at *
    have hlow := Nat.log2_self_le (show m * 2 ^ n ≠ 0 by positivity)
    have hhigh := @Nat.lt_log2_self (m * 2 ^ n)
    have hbits := roundedBits_mul_zpow (show 0 < m * 2 ^ n by positivity) hunit'.ge
    rw [hunit', Int.sub_self, Int.toNat_zero, pow_zero, ← Nat.mul_one (m * 2 ^ n),
      roundQuotient_mul _ Nat.one_pos, Nat.mul_one] at hbits
    generalize m * 2 ^ n = r at *
    have hbelow := (min_lt_iff.mp (hbits ▸ hfinite)).resolve_left (Nat.lt_irrefl _)
    have hk : minScale ≤ k := hunit ▸ le_max_left _ _
    refine magnitude_eq_of_bits hk ?_ (fun hlt => ?_) (hx.trans (hbits.trans (Nat.min_eq_right hbelow.le)))
    · exact hhigh.trans_le (Nat.pow_le_pow_right two_pos (by omega))
    · exact (Nat.pow_le_pow_right two_pos (by omega)).trans hlow

/-- Rounding does not reach down to a number that is a double. -/
theorem le_magnitude {x : Float} {m : Nat} {e : Int} (hx : magnitudeBits x < infinityBits) (hm : m < 2 ^ 53)
    (he : minScale ≤ e) (h : roundedBits (m * 2 ^ e) ≤ magnitudeBits x) : (m : ℚ) * 2 ^ e ≤ magnitude x := by
  have hbits := magnitudeBits_ofMagnitudeBits (roundedBits_le ((m : ℚ) * 2 ^ e)) false
  have hlt : roundedBits (m * 2 ^ e) < infinityBits := h.trans_lt hx
  rw [← magnitude_of_bits_eq hm he hlt hbits, magnitude_le_iff (hbits.trans_lt hlt) hx, hbits]
  exact h

/-! ### Whole doubles -/

theorem floorMagnitude_eq (x : Float) : floorMagnitude x = ⌊magnitude x⌋₊ := by
  rw [magnitude, ← value_eq, Nat.floor_div_eq_div]
  rfl

/-- A whole double is a natural up to its sign. -/
theorem isWhole_iff {x : Float} (h : x.isFinite = true) : isWhole x = true ↔ magnitude x = floorMagnitude x := by
  have hunit : ((2 ^ (-scale x).toNat : Nat) : ℚ) ≠ 0 := by positivity
  rw [isWhole, h, Bool.true_and, decide_eq_true_iff, magnitude, ← value_eq, div_eq_iff hunit, eq_comm]
  exact_mod_cast Iff.rfl

theorem isWhole_of_magnitude {x : Float} (h : x.isFinite = true) {n : Nat} (hn : magnitude x = n) :
    isWhole x = true := by
  rw [isWhole_iff h, floorMagnitude_eq, hn, Nat.floor_natCast]

theorem roundMagnitude_eq (x : Float) : roundMagnitude x = ⌊magnitude x + 1 / 2⌋₊ := by
  have hunit : ((2 ^ (-scale x).toNat : Nat) : ℚ) ≠ 0 := by positivity
  have hvalue : magnitude x + 1 / 2 =
      ((2 * (significand x * 2 ^ (scale x).toNat) + 2 ^ (-scale x).toNat : Nat) : ℚ) /
        (2 * 2 ^ (-scale x).toNat : Nat) := by
    rw [magnitude, ← value_eq]
    push_cast at hunit ⊢
    field_simp
  rw [hvalue, Nat.floor_div_eq_div]
  rfl

end TurtleChain.Binary64
