import TurtleChain.Proofs.Number.Packing

/-! Arithmetic on doubles. A product or a sum of finite doubles is the double nearest to the exact one, and so is
a natural as a double. Within the range of whole doubles nothing is rounded. -/

namespace TurtleChain.Binary64

open Float.Model Float.Model.UnpackedFloat

/-! ### Signs -/

theorem ofModel_pack_unpack (x : Float) : Float.ofModel (Float.Model.pack x.toModel.unpack) = x :=
  ofBits_toBits x

section

variable {x : Float} (h : x.isFinite = true)

include h

/-- The number of a double with another sign. -/
theorem unpack_ofMagnitudeBits (negative : Bool) :
    magnitudeBits x = 0 ∧ x.toModel.unpack = .zero (sign x) ∧
        (ofMagnitudeBits negative (magnitudeBits x)).toModel.unpack =
          .zero (sign (ofMagnitudeBits negative (magnitudeBits x))) ∨
      ∃ hpos, x.toModel.unpack = .finite (sign x) (significand x) (scale x) hpos ∧
        (ofMagnitudeBits negative (magnitudeBits x)).toModel.unpack =
          .finite (sign (ofMagnitudeBits negative (magnitudeBits x))) (significand x) (scale x) hpos := by
  have hlt := isFinite_iff.mp h
  have hbits := magnitudeBits_ofMagnitudeBits hlt.le negative
  rcases Nat.eq_zero_or_pos (magnitudeBits x) with hzero | hpos
  · exact Or.inl ⟨hzero, unpack_zero hzero, unpack_zero (hbits.trans hzero)⟩
  · obtain ⟨hsignificand, hunpack⟩ := unpack_finite hpos hlt
    obtain ⟨_, hunpack'⟩ := unpack_finite (by rwa [hbits]) (by rwa [hbits])
    obtain ⟨hscale, hsame⟩ := (magnitudeBits_eq_iff _ _).mp hbits
    simp only [hscale, hsame] at hunpack'
    exact Or.inr ⟨hsignificand, hunpack, hunpack'⟩

theorem neg_eq : -x = ofMagnitudeBits (!isNegative x) (magnitudeBits x) := by
  have hsign : -sign x = sign (ofMagnitudeBits (!isNegative x) (magnitudeBits x)) := by
    rw [sign, sign, isNegative_ofMagnitudeBits (isFinite_iff.mp h).le]
    cases isNegative x <;> rfl
  rw [← ofModel_pack_unpack (ofMagnitudeBits _ _)]
  show Float.ofModel (Float.Model.pack x.toModel.unpack.neg) = _
  rcases unpack_ofMagnitudeBits h (!isNegative x) with ⟨-, hx, hy⟩ | ⟨hpos, hx, hy⟩
  · rw [hx, hy, ← hsign]
    rfl
  · rw [hx, hy, ← hsign]
    rfl

theorem abs_eq : x.abs = ofMagnitudeBits false (magnitudeBits x) := by
  have hsign : sign (ofMagnitudeBits false (magnitudeBits x)) = .positive :=
    sign_of_nonneg (isNegative_ofMagnitudeBits (isFinite_iff.mp h).le false)
  rw [← ofModel_pack_unpack (ofMagnitudeBits _ _)]
  show Float.ofModel (Float.Model.pack x.toModel.unpack.abs) = _
  rcases unpack_ofMagnitudeBits h false with ⟨-, hx, hy⟩ | ⟨hpos, hx, hy⟩
  · rw [hx, hy, hsign]
    rfl
  · rw [hx, hy, hsign]
    rfl

end

/-! ### Products -/

/-- Of two significands one is full, or both scales are the least. -/
theorem scale_le_keptScale {x y : Float} (hx : 0 < significand x) (hy : 0 < significand y) :
    scale x + scale y ≤ keptScale (significand x * significand y) (scale x + scale y) := by
  have hcases := significand_cases x
  have hcases' := significand_cases y
  have hleast : minScale = -1074 := rfl
  by_cases hfull : 2 ^ 52 ≤ significand x * significand y
  · have hlog : 52 ≤ (significand x * significand y).log2 :=
      (Nat.le_log2 (Nat.mul_pos hx hy).ne').mpr hfull
    unfold keptScale
    omega
  · have hlt : significand x < 2 ^ 52 := by
      by_contra hge
      exact hfull (Nat.le_trans (Nat.le_of_not_lt hge) (Nat.le_mul_of_pos_right _ hy))
    have hlt' : significand y < 2 ^ 52 := by
      by_contra hge
      exact hfull (Nat.le_trans (Nat.le_of_not_lt hge) (Nat.le_mul_of_pos_left _ hx))
    unfold keptScale
    omega

theorem toNat_toBitVec_mul_sign (x y : Float) :
    (sign x * sign y).toBitVec.toNat = (isNegative x != isNegative y).toNat := by
  unfold sign
  cases isNegative x <;> cases isNegative y <;> rfl

section

variable {x y : Float} (hx : x.isFinite = true) (hy : y.isFinite = true)

include hx hy

/-- A product is the exact one, rounded to the nearest double. -/
theorem mul_eq :
    x * y = ofMagnitudeBits (isNegative x != isNegative y) (roundedBits (magnitude x * magnitude y)) := by
  show Float.ofModel (Float.Model.pack (UnpackedFloat.mul .binary64 x.toModel.unpack y.toModel.unpack)) = _
  apply ofModel_pack_eq (roundedBits_le _)
  rw [← toNat_toBitVec_mul_sign]
  rcases Nat.eq_zero_or_pos (magnitudeBits x) with hzero | hpos
  · have hmagnitude := magnitude_eq_zero_iff.mpr hzero
    rw [hmagnitude, zero_mul, roundedBits_zero, Nat.add_zero, unpack_zero hzero]
    rcases Nat.eq_zero_or_pos (magnitudeBits y) with hzero' | hpos'
    · rw [unpack_zero hzero']
      exact toNat_pack_zero _
    · obtain ⟨_, hunpack'⟩ := unpack_finite hpos' (isFinite_iff.mp hy)
      rw [hunpack']
      exact toNat_pack_zero _
  · obtain ⟨hsignificand, hunpack⟩ := unpack_finite hpos (isFinite_iff.mp hx)
    rw [hunpack]
    rcases Nat.eq_zero_or_pos (magnitudeBits y) with hzero' | hpos'
    · rw [magnitude_eq_zero_iff.mpr hzero', mul_zero, roundedBits_zero, Nat.add_zero, unpack_zero hzero']
      exact toNat_pack_zero _
    · obtain ⟨hsignificand', hunpack'⟩ := unpack_finite hpos' (isFinite_iff.mp hy)
      have hvalue : magnitude x * magnitude y =
          (significand x * significand y : Nat) * 2 ^ (scale x + scale y) := by
        rw [magnitude, magnitude, Nat.cast_mul, zpow_add₀ two_ne_zero]
        ring
      rw [hunpack', hvalue]
      exact toNat_pack_roundWithAccuracy _ (Nat.mul_pos hsignificand hsignificand')
        (scale_le_keptScale hsignificand hsignificand')

end

/-! ### Quotients -/

/-- As many zeros are put behind the first mantissa as the quotient needs for its leading bits. -/
theorem divCore_eq {m₁ m₂ : Nat} (hpos : 0 < m₁) (hpos' : 0 < m₂) (e₁ e₂ : Int) :
    ∃ num e, 0 < num ∧ divCore .binary64 m₁ e₁ m₂ e₂ = (num / m₂, e, accuracyOfFraction (num % m₂) m₂) ∧
      e ≤ keptScale (num / m₂) e ∧ (num / m₂ * 2 ^ e : ℚ) = m₁ * 2 ^ e₁ / (m₂ * 2 ^ e₂) := by
  generalize he : min (e₁ - e₂) (Format.binary64.targetExponent (totalExponent m₁ e₁ - totalExponent m₂ e₂)) = e
  obtain ⟨n, hn⟩ := Int.eq_ofNat_of_zero_le (show 0 ≤ e₁ - e₂ - e by omega)
  refine ⟨m₁ * 2 ^ n, e, by positivity, ?_, ?_, ?_⟩
  · unfold divCore
    simp only [he, hn, Nat.shiftLeft_eq]
    rfl
  · have htarget : e ≤ max (m₁.log2 + e₁ - (m₂.log2 + e₂) - 53) minScale := by
      rw [← he]
      refine (min_le_right _ _).trans (le_of_eq ?_)
      show max ((m₁.log2 : Int) + 1 + e₁ - (m₂.log2 + 1 + e₂) - (53 : Nat)) (-1074) = max _ (-1074)
      omega
    rcases le_max_iff.mp htarget with hfull | hleast
    · -- Here the whole part of the quotient has at least 53 bits.
      have hwhole : 2 ^ 52 ≤ m₁ * 2 ^ n / m₂ := by
        rw [Nat.le_div_iff_mul_le hpos']
        calc 2 ^ 52 * m₂ ≤ 2 ^ 52 * 2 ^ (m₂.log2 + 1) := Nat.mul_le_mul_left _ Nat.lt_log2_self.le
          _ = 2 ^ (52 + (m₂.log2 + 1)) := (pow_add _ _ _).symm
          _ ≤ 2 ^ (m₁.log2 + n) := Nat.pow_le_pow_right two_pos (by omega)
          _ = 2 ^ m₁.log2 * 2 ^ n := pow_add _ _ _
          _ ≤ m₁ * 2 ^ n := Nat.mul_le_mul_right _ (Nat.log2_self_le hpos.ne')
      have hlog : 52 ≤ (m₁ * 2 ^ n / m₂).log2 := (Nat.le_log2 (by omega)).mpr hwhole
      unfold keptScale
      omega
    · exact hleast.trans (le_max_left _ _)
  · have hexponent : e₁ = n + e + e₂ := by omega
    have hden : (m₂ : ℚ) ≠ 0 := by exact_mod_cast hpos'.ne'
    rw [hexponent, zpow_add₀ two_ne_zero, zpow_add₀ two_ne_zero, zpow_natCast]
    push_cast
    field_simp

section

variable {x y : Float} (hx : x.isFinite = true) (hy : y.isFinite = true)

include hx hy

/-- A quotient is the exact one, rounded to the nearest double. -/
theorem div_eq (hpos' : 0 < magnitudeBits y) :
    x / y = ofMagnitudeBits (isNegative x != isNegative y) (roundedBits (magnitude x / magnitude y)) := by
  have hsign : (sign x / sign y).toBitVec.toNat = (isNegative x != isNegative y).toNat := toNat_toBitVec_mul_sign x y
  obtain ⟨hsignificand', hunpack'⟩ := unpack_finite hpos' (isFinite_iff.mp hy)
  show Float.ofModel (Float.Model.pack (UnpackedFloat.div .binary64 x.toModel.unpack y.toModel.unpack)) = _
  apply ofModel_pack_eq (roundedBits_le _)
  rw [← hsign, hunpack']
  rcases Nat.eq_zero_or_pos (magnitudeBits x) with hzero | hpos
  · rw [magnitude_eq_zero_iff.mpr hzero, zero_div, roundedBits_zero, Nat.add_zero, unpack_zero hzero]
    exact toNat_pack_zero _
  · obtain ⟨hsignificand, hunpack⟩ := unpack_finite hpos (isFinite_iff.mp hx)
    obtain ⟨num, e, hnum, hcore, hkept, hvalue⟩ := divCore_eq hsignificand hsignificand' (scale x) (scale y)
    rw [hunpack, UnpackedFloat.div, hcore, magnitude, magnitude, ← hvalue]
    exact toNat_pack_roundQuotient _ hnum hsignificand' hkept

end

/-! ### Sums -/

/-- The value of a finite double. -/
def toRat (x : Float) : ℚ :=
  if isNegative x then -magnitude x else magnitude x

theorem abs_toRat (x : Float) : |toRat x| = magnitude x := by
  unfold toRat
  split
  · rw [abs_neg, abs_of_nonneg (magnitude_nonneg x)]
  · exact abs_of_nonneg (magnitude_nonneg x)

theorem toRat_of_nonneg {x : Float} (h : isNegative x = false) : toRat x = magnitude x :=
  if_neg (by rw [h]; exact Bool.false_ne_true)

theorem toRat_eq_zero_iff {x : Float} : toRat x = 0 ↔ magnitudeBits x = 0 := by
  rw [← abs_eq_zero, abs_toRat, magnitude_eq_zero_iff]

theorem toRat_neg_iff {x : Float} (h : 0 < magnitudeBits x) : toRat x < 0 ↔ isNegative x = true := by
  have hpos : 0 < magnitude x := lt_of_le_of_ne (magnitude_nonneg x) (mt magnitude_eq_zero_iff.mp h.ne' ·.symm)
  unfold toRat
  split
  · next hnegative => exact iff_of_true (neg_neg_of_pos hpos) hnegative
  · next hnonneg => exact iff_of_false (not_lt.mpr hpos.le) hnonneg

theorem decide_toRat_neg {x : Float} (h : 0 < magnitudeBits x) : decide (toRat x < 0) = isNegative x := by
  rw [Bool.eq_iff_iff, decide_eq_true_iff, toRat_neg_iff h]

/-- An integer times a power of two becomes the double nearest to it. -/
theorem ofModel_pack_normalize (n e : Int) :
    Float.ofModel (Float.Model.pack (UnpackedFloat.normalize .binary64 n e .positive)) =
      ofMagnitudeBits (decide ((n * 2 ^ e : ℚ) < 0)) (roundedBits |n * 2 ^ e|) := by
  have hpow : (0 : ℚ) < 2 ^ e := by positivity
  have hnegative : (n * 2 ^ e : ℚ) < 0 ↔ n < 0 := by
    rw [← not_le, ← not_le, mul_nonneg_iff_of_pos_right hpow, Int.cast_nonneg_iff]
  apply ofModel_pack_eq (roundedBits_le _)
  rw [decide_eq_decide.mpr hnegative, abs_mul, abs_of_pos hpow]
  unfold UnpackedFloat.normalize
  rcases Int.lt_trichotomy n 0 with hlt | rfl | hgt
  · have hvalue : |(n : ℚ)| = ((-n).toNat : Nat) := by
      rw [abs_of_neg (by exact_mod_cast hlt), ← Int.cast_natCast, Int.toNat_of_nonneg (by omega), Int.cast_neg]
    rw [compare_lt_iff_lt.mpr hlt, decide_eq_true hlt, hvalue]
    exact toNat_pack_round .negative (by omega) e
  · rw [compare_eq_iff_eq.mpr rfl, Int.cast_zero, abs_zero, zero_mul, roundedBits_zero]
    exact toNat_pack_zero .positive
  · have hvalue : |(n : ℚ)| = (n.toNat : Nat) := by
      rw [abs_of_pos (by exact_mod_cast hgt), ← Int.cast_natCast, Int.toNat_of_nonneg hgt.le]
    rw [compare_gt_iff_gt.mpr hgt, decide_eq_false (not_lt.mpr hgt.le), hvalue]
    exact toNat_pack_round .positive (by omega) e

/-- The significand with its sign, at a scale that is no greater. -/
theorem apply_decreaseExponent (x : Float) {e : Int} (h : e ≤ scale x) :
    (((sign x).apply ((decreaseExponent (significand x) (scale x) e).1 : Int) : Int) : ℚ) * 2 ^ e = toRat x := by
  have hvalue := decreaseExponent_value (significand x) (scale x) e
  have hscale : (decreaseExponent (significand x) (scale x) e).2 = e := by
    show scale x - ((scale x - e).toNat : Int) = e
    omega
  rw [hscale] at hvalue
  unfold sign toRat
  cases isNegative x with
  | true =>
      show ((-((decreaseExponent (significand x) (scale x) e).1 : Int) : Int) : ℚ) * 2 ^ e = -magnitude x
      rw [Int.cast_neg, Int.cast_natCast, neg_mul, hvalue, magnitude]
  | false =>
      show (((decreaseExponent (significand x) (scale x) e).1 : Int) : ℚ) * 2 ^ e = magnitude x
      rw [Int.cast_natCast, hvalue, magnitude]

section

variable {x y : Float} (hx : x.isFinite = true) (hy : y.isFinite = true)

include hx

/-- Nothing is rounded where the other term is zero. -/
theorem ofMagnitudeBits_toRat (hpos : 0 < magnitudeBits x) (negative : Bool) :
    ofMagnitudeBits (decide (toRat x < 0) || (isNegative x && negative)) (roundedBits |toRat x|) = x := by
  have hsign : (decide (toRat x < 0) || (isNegative x && negative)) = isNegative x := by
    rw [decide_toRat_neg hpos]
    cases isNegative x <;> simp
  rw [hsign, abs_toRat, roundedBits_magnitude (isFinite_iff.mp hx), ofMagnitudeBits_isNegative]

include hy

theorem add_eq_of_pos (hpos : 0 < magnitudeBits x) (hpos' : 0 < magnitudeBits y) :
    x + y = ofMagnitudeBits (decide (toRat x + toRat y < 0)) (roundedBits |toRat x + toRat y|) := by
  obtain ⟨_, hunpack⟩ := unpack_finite hpos (isFinite_iff.mp hx)
  obtain ⟨_, hunpack'⟩ := unpack_finite hpos' (isFinite_iff.mp hy)
  have hsum := ofModel_pack_normalize
    ((sign x).apply (decreaseExponent (significand x) (scale x) (min (scale x) (scale y))).1 +
      (sign y).apply (decreaseExponent (significand y) (scale y) (min (scale x) (scale y))).1)
    (min (scale x) (scale y))
  rw [Int.cast_add, add_mul, apply_decreaseExponent x (min_le_left _ _),
    apply_decreaseExponent y (min_le_right _ _)] at hsum
  show Float.ofModel (Float.Model.pack (UnpackedFloat.add .binary64 x.toModel.unpack y.toModel.unpack)) = _
  rw [hunpack, hunpack']
  exact hsum

/-- A sum is the exact one, rounded to the nearest double. A sum of zero is minus zero only if both of its terms
have a minus. -/
theorem add_eq :
    x + y = ofMagnitudeBits (decide (toRat x + toRat y < 0) || (isNegative x && isNegative y))
      (roundedBits |toRat x + toRat y|) := by
  have hadd : x + y =
      Float.ofModel (Float.Model.pack (UnpackedFloat.add .binary64 x.toModel.unpack y.toModel.unpack)) := rfl
  rcases Nat.eq_zero_or_pos (magnitudeBits x) with hzero | hpos
  · rw [toRat_eq_zero_iff.mpr hzero, zero_add]
    rcases Nat.eq_zero_or_pos (magnitudeBits y) with hzero' | hpos'
    · rw [hadd, unpack_zero hzero, unpack_zero hzero', toRat_eq_zero_iff.mpr hzero', abs_zero, roundedBits_zero]
      unfold sign
      cases isNegative x <;> cases isNegative y <;> exact ofModel_pack_eq (Nat.zero_le _) (toNat_pack_zero _)
    · obtain ⟨_, hunpack'⟩ := unpack_finite hpos' (isFinite_iff.mp hy)
      rw [hadd, Bool.and_comm, ofMagnitudeBits_toRat hy hpos', unpack_zero hzero, hunpack']
      exact (congrArg (fun u => Float.ofModel (Float.Model.pack u)) hunpack').symm.trans (ofModel_pack_unpack y)
  · rcases Nat.eq_zero_or_pos (magnitudeBits y) with hzero' | hpos'
    · obtain ⟨_, hunpack⟩ := unpack_finite hpos (isFinite_iff.mp hx)
      rw [hadd, toRat_eq_zero_iff.mpr hzero', add_zero, ofMagnitudeBits_toRat hx hpos, unpack_zero hzero', hunpack]
      exact (congrArg (fun u => Float.ofModel (Float.Model.pack u)) hunpack).symm.trans (ofModel_pack_unpack x)
    · have hsign : (isNegative x && isNegative y) = true → decide (toRat x + toRat y < 0) = true := by
        intro hboth
        obtain ⟨hnegative, hnegative'⟩ := Bool.and_eq_true_iff.mp hboth
        exact decide_eq_true (add_neg ((toRat_neg_iff hpos).mpr hnegative) ((toRat_neg_iff hpos').mpr hnegative'))
      rw [add_eq_of_pos hx hy hpos hpos', Bool.or_eq_left_iff_imp.mpr hsign]

end

/-! ### The least double -/

/-- Of the numbers around the least double, half of it goes down to zero, and three quarters of it go up to it. -/
theorem roundedBits_near_least :
    roundedBits (2 ^ minScale / 2) = 0 ∧ 0 < roundedBits (3 / 4 * 2 ^ minScale) ∧ roundedBits (2 ^ minScale) ≤ 1 ∧
      roundedBits (2 * 2 ^ minScale) ≤ 2 := by
  decide +kernel

/-- No positive double is less than the least one. -/
theorem least_le_magnitude {x : Float} (hpos : 0 < magnitudeBits x) (hx : magnitudeBits x < infinityBits) :
    (2 : ℚ) ^ minScale ≤ magnitude x := by
  obtain ⟨-, -, hleast, -⟩ := roundedBits_near_least
  have hle := @le_magnitude x 1 minScale hx (by decide) (le_refl minScale)
  rw [Nat.cast_one, one_mul] at hle
  exact hle (hleast.trans hpos)

/-! ### Integers -/

theorem roundedBits_natCast_lt {n : Nat} (h : n ≤ 2 ^ 64) : roundedBits n < infinityBits := by
  have hle : roundedBits n ≤ roundedBits (2 ^ 64 : Nat) := roundedBits_mono (by positivity) (by exact_mod_cast h)
  have htop : roundedBits (2 ^ 64 : Nat) < infinityBits := by decide +kernel
  exact hle.trans_lt htop

theorem oneBits_eq : oneBits = roundedBits 1 := by
  decide +kernel

theorem magnitude_eq_one {x : Float} (h : magnitudeBits x = oneBits) : magnitude x = 1 := by
  have hexponent : biasedExponent x = 1023 := by
    rw [biasedExponent, h]
    decide
  have hfraction : fraction x = 0 := by
    rw [fraction, h]
    decide
  rw [magnitude, significand, scale, hexponent, hfraction]
  norm_num [fractionBits, minScale]

theorem one_le_magnitude {x : Float} (h : oneBits ≤ magnitudeBits x) (hx : magnitudeBits x < infinityBits) :
    1 ≤ magnitude x := by
  have hone : roundedBits ((1 : Nat) * 2 ^ (0 : Int)) ≤ magnitudeBits x := by
    rwa [zpow_zero, mul_one, Nat.cast_one, ← oneBits_eq]
  have hle := le_magnitude hx (by decide) (by decide) hone
  rwa [zpow_zero, mul_one, Nat.cast_one] at hle

/-- A natural of 53 bits is a double. -/
theorem magnitude_ofMagnitudeBits_natCast {n : Nat} (h : n < 2 ^ 53) (negative : Bool) :
    magnitude (ofMagnitudeBits negative (roundedBits n)) = n := by
  have hbits := magnitudeBits_ofMagnitudeBits (roundedBits_le n) negative
  have hvalue : (n : ℚ) * 2 ^ (0 : Int) = n := by rw [zpow_zero, mul_one]
  have hexact := magnitude_of_bits_eq h (show minScale ≤ 0 by decide)
    (by rw [hvalue]; exact roundedBits_natCast_lt (by omega)) (by rw [hvalue]; exact hbits)
  rwa [hvalue] at hexact

/-- Rounding does not reach up to more than a natural of 53 bits. -/
theorem magnitude_le_natCast {x : Float} {n : Nat} (hn : n < 2 ^ 53) (h : magnitudeBits x ≤ roundedBits n) :
    magnitude x ≤ n := by
  have hbits := magnitudeBits_ofMagnitudeBits (roundedBits_le (n : ℚ)) false
  have hfinite : roundedBits n < infinityBits := roundedBits_natCast_lt (by omega)
  rw [← magnitude_ofMagnitudeBits_natCast hn false, magnitude_le_iff (h.trans_lt hfinite) (hbits.trans_lt hfinite),
    hbits]
  exact h

theorem ofNat_eq_of_lt {n : Nat} (h : n < 2 ^ 53) : Float.ofNat n = ofMagnitudeBits false (roundedBits n) := by
  have hnat : n.toUInt64.toFloat = ofMagnitudeBits false (roundedBits n) := by
    have hword : n.toUInt64.toNat = n := UInt64.toNat_ofNat_of_lt' (h.trans (by decide))
    have hnormalize := ofModel_pack_normalize n 0
    simp only [zpow_zero, mul_one, Int.cast_natCast, abs_of_nonneg (Nat.cast_nonneg (α := ℚ) n),
      decide_eq_false (not_lt.mpr (Nat.cast_nonneg (α := ℚ) n))] at hnormalize
    rw [← hnormalize]
    show Float.ofModel (Float.Model.pack (UnpackedFloat.normalize .binary64 n.toUInt64.toNat 0 .positive)) = _
    rw [hword]
  have hfinite : (ofMagnitudeBits false (roundedBits n)).isFinite = true := by
    rw [isFinite_iff, magnitudeBits_ofMagnitudeBits (roundedBits_le n)]
    exact roundedBits_natCast_lt (by omega)
  have hmul : Float.ofNat n = n.toUInt64.toFloat * Float.ofBits 0x3FF0000000000000 :=
    dif_pos ⟨h, Nat.zero_le 22⟩
  have hone : (Float.ofBits 0x3FF0000000000000).isFinite = true := by decide
  have hpositive : isNegative (Float.ofBits 0x3FF0000000000000) = false := by decide
  have hfactor : magnitude (Float.ofBits 0x3FF0000000000000) = 1 := magnitude_eq_one (by decide)
  rw [hmul, hnat, mul_eq hfinite hone, hfactor, mul_one, magnitude_ofMagnitudeBits_natCast h,
    isNegative_ofMagnitudeBits (roundedBits_le n), hpositive]
  rfl

theorem ofScientific_eq {n : Nat} (hpos : 0 < n) :
    UnpackedFloat.ofScientific .binary64 n 0 = roundWithAccuracy .binary64 .positive (n * 2 ^ 53) (-53) .exact := by
  have hlimit : (2 : Int) ^ Format.binary64.exponentBits = 2048 := by decide
  have hmul : UnpackedFloat.ofScientific .binary64 n 0 =
      roundWithAccuracy .binary64 (.positive * .positive) (n <<< 53 * 1) (-53 + 0) .exact := by
    unfold UnpackedFloat.ofScientific
    rw [dif_neg hpos.ne', if_neg (by decide), if_neg (by omega), if_pos (Int.le_refl 0)]
    rfl
  rw [hmul, Nat.shiftLeft_eq, Nat.mul_one]
  rfl

/-- A natural as a double is the double nearest to it. -/
theorem ofNat_eq (n : Nat) : Float.ofNat n = ofMagnitudeBits false (roundedBits n) := by
  rcases Nat.lt_or_ge n (2 ^ 53) with hlt | hge
  · exact ofNat_eq_of_lt hlt
  · have hpos : 0 < n := Nat.lt_of_lt_of_le (by decide) hge
    have hvalue : ((n * 2 ^ 53 : Nat) : ℚ) * 2 ^ (-53 : Int) = n := by
      rw [Nat.cast_mul, mul_assoc, zpow_neg]
      norm_num
    have hkept : -53 ≤ keptScale (n * 2 ^ 53) (-53) := by
      rw [keptScale, log2_mul_two_pow hpos]
      omega
    have hscientific : Float.ofNat n = Float.ofModel (Float.Model.ofScientific n 0) :=
      dif_neg fun h => Nat.not_lt_of_ge hge h.1
    rw [hscientific, Float.Model.ofScientific, ofScientific_eq hpos]
    apply ofModel_pack_eq (roundedBits_le _)
    rw [← hvalue]
    exact toNat_pack_roundWithAccuracy .positive (by positivity) hkept

theorem magnitudeBits_ofNat (n : Nat) : magnitudeBits (Float.ofNat n) = roundedBits n := by
  rw [ofNat_eq, magnitudeBits_ofMagnitudeBits (roundedBits_le _)]

theorem isNegative_ofNat (n : Nat) : isNegative (Float.ofNat n) = false := by
  rw [ofNat_eq, isNegative_ofMagnitudeBits (roundedBits_le _)]

theorem isFinite_ofNat {n : Nat} (h : n ≤ 2 ^ 64) : (Float.ofNat n).isFinite = true := by
  rw [isFinite_iff, magnitudeBits_ofNat]
  exact roundedBits_natCast_lt h

theorem oneBits_le_ofNat {n : Nat} (hn : 0 < n) : oneBits ≤ magnitudeBits (Float.ofNat n) := by
  rw [oneBits_eq, magnitudeBits_ofNat]
  exact roundedBits_mono zero_le_one (by exact_mod_cast hn)

theorem magnitudeBits_ofNat_pos {n : Nat} (hn : 0 < n) : 0 < magnitudeBits (Float.ofNat n) :=
  Nat.lt_of_lt_of_le (by decide) (oneBits_le_ofNat hn)

theorem magnitude_ofNat {n : Nat} (h : n < 2 ^ 53) : magnitude (Float.ofNat n) = n := by
  rw [ofNat_eq, magnitude_ofMagnitudeBits_natCast h]

theorem ofInt_eq {n : Int} (h : n.natAbs < 2 ^ 53) :
    Float.ofInt n = ofMagnitudeBits (decide (n < 0)) (roundedBits n.natAbs) := by
  cases n with
  | ofNat n => exact ofNat_eq n
  | negSucc n =>
      have hnat : Float.ofNat n.succ = ofMagnitudeBits false (roundedBits n.succ) := ofNat_eq n.succ
      have hfinite : (Float.ofNat n.succ).isFinite = true := by
        rw [hnat, isFinite_iff, magnitudeBits_ofMagnitudeBits (roundedBits_le _)]
        exact roundedBits_natCast_lt (h.le.trans (by decide))
      show -Float.ofNat n.succ = _
      rw [neg_eq hfinite, hnat, isNegative_ofMagnitudeBits (roundedBits_le _),
        magnitudeBits_ofMagnitudeBits (roundedBits_le _), decide_eq_true (Int.negSucc_lt_zero n)]
      rfl

section

variable {n : Int} (h : n.natAbs < 2 ^ 53)

include h

theorem isFinite_ofInt : (Float.ofInt n).isFinite = true := by
  rw [ofInt_eq h, isFinite_iff, magnitudeBits_ofMagnitudeBits (roundedBits_le _)]
  exact roundedBits_natCast_lt (h.le.trans (by decide))

theorem isNegative_ofInt : isNegative (Float.ofInt n) = decide (n < 0) := by
  rw [ofInt_eq h, isNegative_ofMagnitudeBits (roundedBits_le _)]

theorem toRat_ofInt : toRat (Float.ofInt n) = n := by
  rw [toRat, isNegative_ofInt h, ofInt_eq h, magnitude_ofMagnitudeBits_natCast h]
  by_cases hneg : n < 0
  · rw [if_pos (decide_eq_true hneg), Nat.cast_natAbs, abs_of_neg hneg, Int.cast_neg, neg_neg]
  · rw [if_neg (by simpa using hneg), Nat.cast_natAbs, abs_of_nonneg (not_lt.mp hneg)]

end

/-- A product that is the value of a double is that double, but for the sign of zero. -/
theorem mul_eq_of_toRat {x y z : Float} (hx : x.isFinite = true) (hy : y.isFinite = true) (hz : z.isFinite = true)
    (h : toRat x * toRat y = toRat z) (hzero : toRat z ≠ 0) : x * y = z := by
  have hpos : ∀ {x : Float}, toRat x ≠ 0 → 0 < magnitudeBits x :=
    fun hx => Nat.pos_of_ne_zero (mt toRat_eq_zero_iff.mpr hx)
  have hx0 : toRat x ≠ 0 := left_ne_zero_of_mul (h ▸ hzero)
  have hy0 : toRat y ≠ 0 := right_ne_zero_of_mul (h ▸ hzero)
  have hsign : (isNegative x != isNegative y) = isNegative z := by
    rw [← decide_toRat_neg (hpos hx0), ← decide_toRat_neg (hpos hy0), ← decide_toRat_neg (hpos hzero), ← h,
      Bool.eq_iff_iff, bne_iff_ne, ne_eq, Bool.eq_iff_iff, decide_eq_true_iff, decide_eq_true_iff, decide_eq_true_iff,
      mul_neg_iff]
    have hcases := lt_or_gt_of_ne hx0
    have hcases' := lt_or_gt_of_ne hy0
    grind
  have hmagnitude : magnitude x * magnitude y = magnitude z := by
    rw [← abs_toRat, ← abs_toRat, ← abs_toRat, ← abs_mul, h]
  rw [mul_eq hx hy, hmagnitude, hsign, roundedBits_magnitude (isFinite_iff.mp hz), ofMagnitudeBits_isNegative]

/-- Sums of whole doubles are exact. -/
theorem ofInt_add {m n : Int} (hm : m.natAbs < 2 ^ 53) (hn : n.natAbs < 2 ^ 53) (hsum : (m + n).natAbs < 2 ^ 53) :
    Float.ofInt m + Float.ofInt n = Float.ofInt (m + n) := by
  have hsign : (decide (((m : ℚ) + n) < 0) || (decide (m < 0) && decide (n < 0))) = decide (m + n < 0) := by
    have hcast : ((m : ℚ) + n) < 0 ↔ m + n < 0 := by exact_mod_cast Iff.rfl
    rw [Bool.eq_iff_iff]
    simp only [Bool.or_eq_true, Bool.and_eq_true, decide_eq_true_eq, hcast]
    omega
  have hmagnitude : |(m : ℚ) + n| = (m + n).natAbs := by
    rw [Nat.cast_natAbs, Int.cast_abs, Int.cast_add]
  rw [add_eq (isFinite_ofInt hm) (isFinite_ofInt hn), toRat_ofInt hm, toRat_ofInt hn, isNegative_ofInt hm,
    isNegative_ofInt hn, hsign, hmagnitude, ofInt_eq hsum]

/-- So are their products, but for the sign of zero. -/
theorem ofInt_mul {m n : Int} (hm : m.natAbs < 2 ^ 53) (hn : n.natAbs < 2 ^ 53) (hproduct : (m * n).natAbs < 2 ^ 53)
    (hzero : m * n ≠ 0) : Float.ofInt m * Float.ofInt n = Float.ofInt (m * n) := by
  refine mul_eq_of_toRat (isFinite_ofInt hm) (isFinite_ofInt hn) (isFinite_ofInt hproduct) ?_ ?_
  · rw [toRat_ofInt hm, toRat_ofInt hn, toRat_ofInt hproduct, Int.cast_mul]
  · rw [toRat_ofInt hproduct, Int.cast_ne_zero]
    exact hzero

/-- A factor of plus or minus one only decides the sign. -/
theorem mul_of_magnitude_one {s x : Float} (hs : s.isFinite = true) (hone : magnitude s = 1)
    (hx : x.isFinite = true) : s * x = ofMagnitudeBits (isNegative s != isNegative x) (magnitudeBits x) := by
  rw [mul_eq hs hx, hone, one_mul, roundedBits_magnitude (isFinite_iff.mp hx)]

end TurtleChain.Binary64
