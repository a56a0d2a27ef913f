import TurtleChain.Proofs.Number.Bits

/-! Rounding quotients to doubles. Rounding is monotone in the value of the quotient, so it depends on nothing
else, and a quotient that is the value of a double rounds to that double. -/

namespace TurtleChain.Binary64

/-! ### Rounding to naturals -/

theorem lt_roundQuotient_iff {num den : Nat} (hden : 0 < den) (n : Nat) :
    n < roundQuotient num den ↔
      (2 * n + 1) * den < 2 * num ∨ (2 * n + 1) * den = 2 * num ∧ n % 2 = 1 := by
  have hsplit := Nat.div_add_mod num den
  have hmod := Nat.mod_lt num hden
  rw [roundQuotient]
  generalize num / den = low at *
  generalize num % den = rest at *
  have hodd : (2 * n + 1) * den = 2 * (den * n) + den := by ring
  rcases Nat.lt_trichotomy n low with hlt | rfl | hgt
  · obtain ⟨j, rfl⟩ := Nat.exists_eq_add_of_lt hlt
    have hlow : den * (n + j + 1) = den * n + den * j + den := by ring
    refine iff_of_true ?_ (Or.inl ?_)
    · split
      · exact hlt
      · exact Nat.lt_succ_of_lt hlt
      · split <;> omega
    · omega
  · rw [hodd]
    rcases Nat.lt_trichotomy (2 * rest) den with h | h | h
    · rw [Nat.compare_eq_lt.mpr h]
      apply iff_of_false (Nat.lt_irrefl _)
      omega
    · rw [Nat.compare_eq_eq.mpr h]
      dsimp only
      split <;> omega
    · rw [Nat.compare_eq_gt.mpr h]
      apply iff_of_true (Nat.lt_succ_self _)
      omega
  · obtain ⟨j, rfl⟩ := Nat.exists_eq_add_of_lt hgt
    have hlow : den * (low + j + 1) = den * low + den * j + den := by ring
    refine iff_of_false ?_ ?_
    · split
      · omega
      · omega
      · split <;> omega
    · omega

theorem roundQuotient_mono {num den num' den' : Nat} (hden : 0 < den) (hden' : 0 < den')
    (h : num * den' ≤ num' * den) : roundQuotient num den ≤ roundQuotient num' den' := by
  by_contra hlt
  have hhalf := (lt_roundQuotient_iff hden _).mp (Nat.lt_of_not_le hlt)
  generalize hn : roundQuotient num' den' = n at hhalf
  have hscaled : ∀ m : Nat, m * den ≤ 2 * num → m * den' ≤ 2 * num' := by
    intro m hm
    have hle : m * den' * den ≤ 2 * num' * den := by nlinarith
    exact Nat.le_of_mul_le_mul_right hle hden
  have hstrict : ∀ m : Nat, m * den < 2 * num → m * den' < 2 * num' := by
    intro m hm
    have hlt : m * den' * den < 2 * num' * den := by nlinarith
    exact Nat.lt_of_mul_lt_mul_right hlt
  have hself : n < roundQuotient num' den' := by
    rw [lt_roundQuotient_iff hden']
    rcases hhalf with hlt | ⟨heq, hodd⟩
    · exact Or.inl (hstrict _ hlt)
    · rcases Nat.lt_or_eq_of_le (hscaled _ (Nat.le_of_eq heq)) with hlt | heq'
      · exact Or.inl hlt
      · exact Or.inr ⟨heq', hodd⟩
  exact absurd hn (Nat.ne_of_gt hself)

theorem roundQuotient_mul (n : Nat) {den : Nat} (hden : 0 < den) : roundQuotient (n * den) den = n := by
  rw [roundQuotient, Nat.mul_div_cancel n hden, Nat.mul_mod_left, Nat.mul_zero, Nat.compare_eq_lt.mpr hden]

/-! ### The power of two in a quotient -/

theorem zpow_eq_div (b : ℚ) (k : Int) : b ^ k = b ^ k.toNat / b ^ (-k).toNat := by
  obtain ⟨n, rfl | rfl⟩ := k.eq_nat_or_neg
  · rw [zpow_natCast, Int.toNat_natCast, Int.toNat_neg_natCast, pow_zero, div_one]
  · rw [neg_neg, Int.toNat_natCast, Int.toNat_neg_natCast, zpow_neg, zpow_natCast, pow_zero, one_div]

/-- A quotient against a multiple of a power of two, in naturals. -/
theorem mul_zpow_le_iff (c num : Nat) {den : Nat} (hden : 0 < den) (k : Int) :
    (c : ℚ) * 2 ^ k ≤ num / den ↔ c * (den * 2 ^ k.toNat) ≤ num * 2 ^ (-k).toNat := by
  have hden' : (0 : ℚ) < den := by exact_mod_cast hden
  rw [zpow_eq_div, ← mul_div_assoc, div_le_div_iff₀ (by positivity) hden']
  have hcast : (c * (den * 2 ^ k.toNat) ≤ num * 2 ^ (-k).toNat) ↔
      ((c * (den * 2 ^ k.toNat) : Nat) : ℚ) ≤ ((num * 2 ^ (-k).toNat : Nat) : ℚ) := Nat.cast_le.symm
  rw [hcast]
  push_cast
  rw [mul_right_comm, mul_assoc (c : ℚ), mul_comm (den : ℚ)]

theorem zpow_log2_sub_le {num den : Nat} (hnum : 0 < num) (hden : 0 < den) :
    (2 : ℚ) ^ ((num.log2 : Int) - den.log2 - 1) ≤ num / den := by
  have hlow : (2 : ℚ) ^ num.log2 ≤ num := by exact_mod_cast Nat.log2_self_le hnum.ne'
  have hhigh : (den : ℚ) ≤ 2 ^ (den.log2 + 1) := by exact_mod_cast Nat.lt_log2_self.le
  have hden' : (0 : ℚ) < den := by exact_mod_cast hden
  have hexponent : (num.log2 : Int) - den.log2 - 1 = num.log2 - (den.log2 + 1 : Nat) := by omega
  rw [hexponent, zpow_sub₀ two_ne_zero, zpow_natCast, zpow_natCast]
  exact div_le_div₀ (by positivity) hlow hden' hhigh

theorem lt_zpow_log2_sub {num den : Nat} (hden : 0 < den) :
    (num / den : ℚ) < 2 ^ ((num.log2 : Int) - den.log2 + 1) := by
  have hhigh : (num : ℚ) < 2 ^ (num.log2 + 1) := by exact_mod_cast Nat.lt_log2_self
  have hlow : (2 : ℚ) ^ den.log2 ≤ den := by exact_mod_cast Nat.log2_self_le hden.ne'
  have hexponent : (num.log2 : Int) - den.log2 + 1 = (num.log2 + 1 : Nat) - den.log2 := by omega
  rw [hexponent, zpow_sub₀ two_ne_zero, zpow_natCast, zpow_natCast]
  exact div_lt_div₀ hhigh hlow (by positivity) (by positivity)

theorem floorLog2_eq_log {num den : Nat} (hnum : 0 < num) (hden : 0 < den) :
    floorLog2 num den = Int.log 2 ((num : ℚ) / den) := by
  have hpos : (0 : ℚ) < num / den := div_pos (by exact_mod_cast hnum) (by exact_mod_cast hden)
  have hlow := (Int.zpow_le_iff_le_log one_lt_two hpos).mp (zpow_log2_sub_le hnum hden)
  have hhigh := (Int.lt_zpow_iff_log_lt one_lt_two hpos).mp (lt_zpow_log2_sub hden)
  have hguess := mul_zpow_le_iff 1 num hden ((num.log2 : Int) - den.log2)
  rw [Nat.cast_one, one_mul, one_mul] at hguess
  rw [floorLog2]
  simp only [Nat.pow_eq]
  split
  · next h =>
      have hle := (Int.zpow_le_iff_le_log one_lt_two hpos).mp (hguess.mpr h)
      omega
  · next h =>
      have hlt := mt (Int.zpow_le_iff_le_log one_lt_two hpos).mpr (mt hguess.mp h)
      omega

/-! ### Rounding to doubles -/

/-- The exponent of two of the last bit that is kept. -/
def lastScale (num den : Nat) : Int :=
  max minScale (floorLog2 num den - fractionBits)

/-- The quotient as a rounded multiple of its last bit. -/
def rounded (num den : Nat) : Nat :=
  roundQuotient (num * 2 ^ (-lastScale num den).toNat) (den * 2 ^ (lastScale num den).toNat)

theorem nearestBits_zero (den : Nat) : nearestBits 0 den = 0 := by
  rw [nearestBits, if_pos rfl]

theorem nearestBits_eq {num : Nat} (hnum : 0 < num) (den : Nat) :
    nearestBits num den =
      min infinityBits ((lastScale num den - minScale).toNat * 2 ^ 52 + rounded num den) := by
  rw [nearestBits, if_neg hnum.ne']
  rfl

theorem minScale_le_lastScale (num den : Nat) : minScale ≤ lastScale num den :=
  le_max_left _ _

section

variable {num den : Nat} (hnum : 0 < num) (hden : 0 < den)

include hnum hden

theorem quotient_pos : (0 : ℚ) < num / den :=
  div_pos (by exact_mod_cast hnum) (by exact_mod_cast hden)

theorem zpow_floorLog2_le : (2 : ℚ) ^ floorLog2 num den ≤ num / den := by
  rw [floorLog2_eq_log hnum hden]
  exact Int.zpow_log_le_self one_lt_two (quotient_pos hnum hden)

theorem lt_zpow_floorLog2_add_one : (num / den : ℚ) < 2 ^ (floorLog2 num den + 1) := by
  rw [floorLog2_eq_log hnum hden]
  exact Int.lt_zpow_succ_log_self one_lt_two _

theorem rounded_le : rounded num den ≤ 2 ^ 53 := by
  have hden' : 0 < den * 2 ^ (lastScale num den).toNat := by positivity
  rw [← roundQuotient_mul (2 ^ 53) hden']
  refine roundQuotient_mono hden' hden' (Nat.mul_le_mul_right _ ?_)
  by_contra hlt
  have hle := (mul_zpow_le_iff (2 ^ 53) num hden _).mpr (Nat.le_of_not_le hlt)
  have hscale : floorLog2 num den + 1 ≤ 53 + lastScale num den := by
    have hmax := le_max_right minScale (floorLog2 num den - fractionBits)
    simp only [lastScale, fractionBits, Nat.cast_ofNat] at hmax ⊢
    omega
  have hpow : (2 : ℚ) ^ (floorLog2 num den + 1) ≤ 2 ^ (53 : Int) * 2 ^ lastScale num den := by
    rw [← zpow_add₀ two_ne_zero]
    exact zpow_le_zpow_right₀ one_le_two hscale
  have hself := (lt_zpow_floorLog2_add_one hnum hden).trans_le hpow
  exact absurd hself (not_lt.mpr (by exact_mod_cast hle))

/-- Above the least scale no bit in front is lost. -/
theorem le_rounded (hscale : minScale < lastScale num den) : 2 ^ 52 ≤ rounded num den := by
  have hden' : 0 < den * 2 ^ (lastScale num den).toNat := by positivity
  have hlast : floorLog2 num den = 52 + lastScale num den := by
    simp only [lastScale, fractionBits, Nat.cast_ofNat] at hscale ⊢
    omega
  rw [rounded, ← roundQuotient_mul (2 ^ 52) hden']
  refine roundQuotient_mono hden' hden' (Nat.mul_le_mul_right _ ?_)
  rw [← mul_zpow_le_iff (2 ^ 52) num hden]
  have hself := zpow_floorLog2_le hnum hden
  rw [hlast, zpow_add₀ two_ne_zero] at hself
  exact_mod_cast hself

end

theorem quotient_le_quotient {num den num' den' : Nat} (hden : 0 < den) (hden' : 0 < den') :
    (num / den : ℚ) ≤ num' / den' ↔ num * den' ≤ num' * den := by
  rw [div_le_div_iff₀ (by exact_mod_cast hden) (by exact_mod_cast hden')]
  exact_mod_cast Iff.rfl

/-- Rounding is monotone. -/
theorem nearestBits_mono {num den num' den' : Nat} (hden : 0 < den) (hden' : 0 < den')
    (h : num * den' ≤ num' * den) : nearestBits num den ≤ nearestBits num' den' := by
  rcases Nat.eq_zero_or_pos num with rfl | hnum
  · rw [nearestBits_zero]
    exact Nat.zero_le _
  · have hnum' : 0 < num' := Nat.pos_of_mul_pos_right (Nat.lt_of_lt_of_le (Nat.mul_pos hnum hden') h)
    rw [nearestBits_eq hnum, nearestBits_eq hnum']
    apply min_le_min_left _
    have hlog : floorLog2 num den ≤ floorLog2 num' den' := by
      rw [floorLog2_eq_log hnum hden, floorLog2_eq_log hnum' hden']
      exact Int.log_mono_right (quotient_pos hnum hden) ((quotient_le_quotient hden hden').mpr h)
    have hscale : lastScale num den ≤ lastScale num' den' := max_le_max_left _ (by omega)
    have hleast := minScale_le_lastScale num den
    -- With one scale the rounded naturals decide, and otherwise the scales do.
    rcases hscale.lt_or_eq with hlt | heq
    · have hbelow := rounded_le hnum hden
      have habove := le_rounded hnum' hden' (by omega)
      omega
    · refine Nat.add_le_add (by rw [heq]) ?_
      rw [rounded, rounded, ← heq]
      apply roundQuotient_mono (by positivity) (by positivity)
      calc num * 2 ^ (-lastScale num den).toNat * (den' * 2 ^ (lastScale num den).toNat)
          = num * den' * (2 ^ (-lastScale num den).toNat * 2 ^ (lastScale num den).toNat) := by ring
        _ ≤ num' * den * (2 ^ (-lastScale num den).toNat * 2 ^ (lastScale num den).toNat) :=
            Nat.mul_le_mul_right _ h
        _ = num' * 2 ^ (-lastScale num den).toNat * (den * 2 ^ (lastScale num den).toNat) := by ring

/-- Rounding depends on the value of the quotient alone. -/
theorem nearestBits_congr {num den num' den' : Nat} (hden : 0 < den) (hden' : 0 < den')
    (h : num * den' = num' * den) : nearestBits num den = nearestBits num' den' :=
  Nat.le_antisymm (nearestBits_mono hden hden' h.le) (nearestBits_mono hden' hden h.ge)

/-! ### Doubles round to themselves -/

/-- The value of the double as a quotient of naturals. -/
theorem value_eq (x : Float) :
    ((significand x * 2 ^ (scale x).toNat : Nat) : ℚ) / (2 ^ (-scale x).toNat : Nat) =
      significand x * 2 ^ scale x := by
  rw [zpow_eq_div, Nat.cast_mul, Nat.cast_pow, Nat.cast_pow, Nat.cast_ofNat, mul_div_assoc]

theorem lastScale_significand {x : Float} (hpos : 0 < significand x) :
    lastScale (significand x * 2 ^ (scale x).toNat) (2 ^ (-scale x).toNat) = scale x := by
  have hnum : 0 < significand x * 2 ^ (scale x).toNat := by positivity
  have hden : 0 < 2 ^ (-scale x).toNat := by positivity
  have hlow := zpow_floorLog2_le hnum hden
  have hhigh := lt_zpow_floorLog2_add_one hnum hden
  unfold lastScale
  generalize floorLog2 (significand x * 2 ^ (scale x).toNat) (2 ^ (-scale x).toNat) = k at hlow hhigh ⊢
  rw [value_eq] at hlow hhigh
  have hunit : (0 : ℚ) < 2 ^ scale x := zpow_pos two_pos _
  have hfraction := fraction_lt x
  rcases significand_cases x with ⟨-, hsignificand, hscale⟩ | ⟨hbiased, hsignificand, hscale⟩
  · have hlt : (significand x : ℚ) * 2 ^ scale x < 2 ^ (52 + scale x) := by
      rw [zpow_add₀ two_ne_zero]
      exact mul_lt_mul_of_pos_right (by rw [hsignificand]; exact_mod_cast hfraction) hunit
    have hk : k < 52 + scale x := (zpow_lt_zpow_iff_right₀ one_lt_two).mp (hlow.trans_lt hlt)
    rw [hscale] at hk ⊢
    exact max_eq_left (by simp only [fractionBits, Nat.cast_ofNat]; omega)
  · have hlt : (significand x : ℚ) * 2 ^ scale x < 2 ^ (53 + scale x) := by
      rw [zpow_add₀ two_ne_zero]
      refine mul_lt_mul_of_pos_right ?_ hunit
      exact_mod_cast significand_lt x
    have hge : (2 : ℚ) ^ (52 + scale x) ≤ significand x * 2 ^ scale x := by
      rw [zpow_add₀ two_ne_zero]
      refine mul_le_mul_of_nonneg_right ?_ hunit.le
      have hnat : 2 ^ 52 ≤ significand x := by omega
      exact_mod_cast hnat
    have hk : k < 53 + scale x := (zpow_lt_zpow_iff_right₀ one_lt_two).mp (hlow.trans_lt hlt)
    have hk' : 52 + scale x < k + 1 := (zpow_lt_zpow_iff_right₀ one_lt_two).mp (hge.trans_lt hhigh)
    simp only [fractionBits, Nat.cast_ofNat]
    omega

theorem nearestBits_exact {x : Float} (h : magnitudeBits x < infinityBits) :
    nearestBits (significand x * 2 ^ (scale x).toNat) (2 ^ (-scale x).toNat) = magnitudeBits x := by
  have hbits := magnitudeBits_eq x
  have hcases := significand_cases x
  rcases Nat.eq_zero_or_pos (significand x) with hzero | hpos
  · rw [hzero, Nat.zero_mul, nearestBits_zero]
    omega
  · have hrounded : rounded (significand x * 2 ^ (scale x).toNat) (2 ^ (-scale x).toNat) = significand x := by
      rw [rounded, lastScale_significand hpos, Nat.mul_assoc, Nat.mul_comm (2 ^ (-scale x).toNat)]
      exact roundQuotient_mul _ (by positivity)
    rw [nearestBits_eq (by positivity), hrounded, lastScale_significand hpos]
    refine (Nat.min_eq_right ?_).trans ?_ <;> omega

end TurtleChain.Binary64
