import TurtleChain.Number.Decimal
import TurtleChain.Proofs.Number.Rounding

/-! Reading decimals as doubles. What a decimal reads as depends on its value, so zeros at the end of its
digits do not matter, and neither do the guards that keep the powers of ten small. The shortest decimal of a
finite double reads as that double. -/

namespace TurtleChain.Decimal

open Binary64

/-- The number that the decimal stands for. -/
def value (d : Decimal) : ℚ :=
  d.digits * 10 ^ d.exponent

/-- The magnitude of the double nearest to the decimal. -/
def bits (d : Decimal) : Nat :=
  nearestBits (d.digits * 10 ^ d.exponent.toNat) (10 ^ (-d.exponent).toNat)

theorem value_eq_div (d : Decimal) :
    d.value = ((d.digits * 10 ^ d.exponent.toNat : Nat) : ℚ) / (10 ^ (-d.exponent).toNat : Nat) := by
  rw [value, zpow_eq_div, Nat.cast_mul, Nat.cast_pow, Nat.cast_pow, Nat.cast_ofNat, mul_div_assoc]

theorem bits_le (d : Decimal) : d.bits ≤ infinityBits := by
  rw [bits, nearestBits]
  split
  · exact Nat.zero_le _
  · exact Nat.min_le_left _ _

theorem bits_mono {d d' : Decimal} (h : d.value ≤ d'.value) : d.bits ≤ d'.bits := by
  rw [value_eq_div, value_eq_div] at h
  have hden : 0 < 10 ^ (-d.exponent).toNat := by positivity
  have hden' : 0 < 10 ^ (-d'.exponent).toNat := by positivity
  exact nearestBits_mono hden hden' ((quotient_le_quotient hden hden').mp h)

theorem bits_congr {d d' : Decimal} (h : d.value = d'.value) : d.bits = d'.bits :=
  Nat.le_antisymm (bits_mono h.le) (bits_mono h.ge)

theorem bits_zero {d : Decimal} (h : d.digits = 0) : d.bits = 0 := by
  rw [bits, h, Nat.zero_mul, nearestBits_zero]

/-- Every decimal of an exponent this high is beyond the greatest double. -/
theorem bits_huge {d : Decimal} (hdigits : d.digits ≠ 0) (h : 400 < d.exponent) : d.bits = infinityBits := by
  apply Nat.le_antisymm d.bits_le
  have htop : nearestBits (2 ^ 1024) 1 = infinityBits := by decide +kernel
  rw [← htop]
  apply nearestBits_mono Nat.one_pos (by positivity)
  rw [show (-d.exponent).toNat = 0 by omega, Nat.mul_one, pow_zero, Nat.mul_one]
  calc 2 ^ 1024 ≤ 10 ^ 401 := by decide +kernel
    _ ≤ 10 ^ d.exponent.toNat := Nat.pow_le_pow_right (by decide) (by omega)
    _ ≤ d.digits * 10 ^ d.exponent.toNat := Nat.le_mul_of_pos_left _ (Nat.pos_of_ne_zero hdigits)

/-- Every decimal of an exponent this low, for the length of its digits, is below half the least double. -/
theorem bits_tiny {d : Decimal} (h : d.exponent < -(400 + (d.digits.log2 : Int))) : d.bits = 0 := by
  have hleast : nearestBits 1 (2 ^ 1076) = 0 := by decide +kernel
  refine Nat.le_zero.mp (hleast ▸ nearestBits_mono (by positivity) (by positivity) ?_)
  rw [show d.exponent.toNat = 0 by omega, pow_zero, Nat.mul_one, Nat.one_mul]
  calc d.digits * 2 ^ 1076 ≤ 2 ^ (d.digits.log2 + 1) * 2 ^ 1076 :=
        Nat.mul_le_mul_right _ Nat.lt_log2_self.le
    _ = 2 ^ d.digits.log2 * 2 ^ 1077 := by rw [pow_succ, Nat.mul_assoc, ← pow_succ']
    _ ≤ 10 ^ d.digits.log2 * 10 ^ 401 :=
        Nat.mul_le_mul (Nat.pow_le_pow_left (by decide) _) (by decide +kernel)
    _ = 10 ^ (d.digits.log2 + 401) := (pow_add _ _ _).symm
    _ ≤ 10 ^ (-d.exponent).toNat := Nat.pow_le_pow_right (by decide) (by omega)

/-- The guards give what rounding gives. -/
theorem toFloat_eq (negative : Bool) (d : Decimal) : d.toFloat negative = ofMagnitudeBits negative d.bits := by
  unfold toFloat
  split
  · next hzero => rw [bits_zero hzero]
  · next hzero =>
      split
      · next hhuge => rw [bits_huge hzero hhuge]
      · split
        · next htiny => rw [bits_tiny htiny]
        · rfl

theorem dropZeros_value (digits : Nat) (exponent : Int) :
    (dropZeros digits exponent).value = (⟨digits, exponent⟩ : Decimal).value := by
  induction digits using Nat.strongRecOn generalizing exponent with
  | ind digits ih =>
      unfold dropZeros
      split
      · next h =>
          have hlt : digits / 10 < digits := Nat.div_lt_self (Nat.pos_of_ne_zero h.1) (by decide)
          have hdigits : ((digits / 10 : Nat) : ℚ) * 10 = digits := by
            exact_mod_cast Nat.div_mul_cancel (Nat.dvd_of_mod_eq_zero h.2)
          rw [ih _ hlt, value, value]
          simp only
          rw [zpow_add_one₀ (by norm_num), mul_comm ((10 : ℚ) ^ exponent), ← mul_assoc, hdigits]
      · rfl

theorem trimmed_bits (d : Decimal) : d.trimmed.bits = d.bits :=
  bits_congr (dropZeros_value d.digits d.exponent)

theorem readsAs_iff (x : Float) (d : Decimal) : d.readsAs x = true ↔ d.bits = magnitudeBits x := by
  rw [readsAs, toFloat_eq, toNat_toBits_ofMagnitudeBits d.bits_le, if_neg Bool.false_ne_true, beq_iff_eq]

theorem onGrid?_bits {tie : Tie} {x : Float} {num den : Nat} {exponent : Int} {d : Decimal}
    (h : onGrid? tie x num den exponent = some d) : d.bits = magnitudeBits x := by
  rw [← readsAs_iff]
  unfold onGrid? at h
  simp only at h
  split at h
  · cases h
  · next hlow _ =>
      cases h
      exact hlow
  · next _ hhigh =>
      cases h
      exact hhigh
  · next hlow hhigh =>
      split at h
      · cases h
        exact hlow
      · cases h
        exact hhigh
      · cases h
        exact hhigh
      · split at h
        · cases h
          exact hlow
        · cases h
          exact hhigh

/-- The value of a whole double is its greatest natural part. -/
theorem bits_of_isWhole {x : Float} (h : magnitudeBits x < infinityBits) (hwhole : isWhole x = true) :
    (⟨floorMagnitude x, 0⟩ : Decimal).bits = magnitudeBits x := by
  rw [isWhole, Bool.and_eq_true, decide_eq_true_eq] at hwhole
  rw [← nearestBits_exact h]
  apply nearestBits_congr (by positivity) (by positivity)
  simp only [neg_zero, Int.toNat_zero, pow_zero, Nat.mul_one]
  exact hwhole.2

theorem exact_bits {x : Float} (h : magnitudeBits x < infinityBits) : (exact x).bits = magnitudeBits x := by
  rw [← nearestBits_exact h]
  apply nearestBits_congr (by positivity) (by positivity)
  simp only [exact, Nat.pow_eq, neg_neg, Int.toNat_natCast, Int.toNat_neg_natCast, pow_zero, Nat.mul_one]
  rw [Nat.mul_assoc, ← Nat.mul_pow]

/-- The shortest decimal of a finite double reads as its magnitude. -/
theorem shortest_bits (tie : Tie) {x : Float} (h : magnitudeBits x < infinityBits) :
    (shortest tie x).bits = magnitudeBits x := by
  unfold shortest
  split
  · next hwhole =>
      rw [trimmed_bits]
      exact bits_of_isWhole h (Bool.and_eq_true_iff.mp hwhole).1
  · simp only
    rw [trimmed_bits]
    generalize hfound : List.findSome? _ _ = found
    cases found with
    | none => exact exact_bits h
    | some d =>
        obtain ⟨n, -, hgrid⟩ := List.exists_of_findSome?_eq_some hfound
        exact onGrid?_bits hgrid

end TurtleChain.Decimal
