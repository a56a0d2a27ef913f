import TurtleChain.Proofs.Number.Bits

/-! The order of the finite doubles. It is that of their magnitudes, and the other way round below zero; minus
zero and zero are equal. -/

namespace TurtleChain.Binary64

open Float.Model

/-- The magnitude of a double, with its sign. -/
def signedBits (x : Float) : Int :=
  if isNegative x then -(magnitudeBits x : Int) else magnitudeBits x

theorem signedBits_of_negative {x : Float} (h : isNegative x = true) : signedBits x = -(magnitudeBits x : Int) :=
  if_pos h

theorem signedBits_of_nonneg {x : Float} (h : isNegative x = false) : signedBits x = magnitudeBits x :=
  if_neg (by rw [h]; exact Bool.false_ne_true)

theorem sign_of_negative {x : Float} (h : isNegative x = true) : sign x = .negative :=
  if_pos h

theorem sign_of_nonneg {x : Float} (h : isNegative x = false) : sign x = .positive :=
  if_neg (by rw [h]; exact Bool.false_ne_true)

theorem natAbs_signedBits (x : Float) : (signedBits x).natAbs = magnitudeBits x := by
  unfold signedBits
  split <;> omega

theorem magnitudeBits_lt_iff (x y : Float) :
    magnitudeBits x < magnitudeBits y ↔
      scale x < scale y ∨ scale x = scale y ∧ significand x < significand y := by
  have hx := significand_cases x
  have hy := significand_cases y
  have hbits := magnitudeBits_eq x
  have hbits' := magnitudeBits_eq y
  have hfraction := fraction_lt x
  have hfraction' := fraction_lt y
  omega

theorem magnitudeBits_eq_iff (x y : Float) :
    magnitudeBits x = magnitudeBits y ↔ scale x = scale y ∧ significand x = significand y := by
  have hlt := magnitudeBits_lt_iff x y
  have hgt := magnitudeBits_lt_iff y x
  omega

/-- The scale decides, and where it is the same the significand does. -/
theorem compare_magnitudeBits (x y : Float) :
    (compare (scale x) (scale y)).then (compare (significand x) (significand y)) =
      compare (magnitudeBits x) (magnitudeBits y) := by
  rcases Nat.lt_trichotomy (magnitudeBits x) (magnitudeBits y) with h | h | h
  · rw [Nat.compare_eq_lt.mpr h]
    rcases (magnitudeBits_lt_iff x y).mp h with hscale | ⟨hscale, hsignificand⟩
    · rw [compare_lt_iff_lt.mpr hscale]
      rfl
    · rw [compare_eq_iff_eq.mpr hscale, Nat.compare_eq_lt.mpr hsignificand]
      rfl
  · obtain ⟨hscale, hsignificand⟩ := (magnitudeBits_eq_iff x y).mp h
    rw [compare_eq_iff_eq.mpr hscale, Nat.compare_eq_eq.mpr hsignificand, Nat.compare_eq_eq.mpr h]
    rfl
  · rw [Nat.compare_eq_gt.mpr h]
    rcases (magnitudeBits_lt_iff y x).mp h with hscale | ⟨hscale, hsignificand⟩
    · rw [compare_gt_iff_gt.mpr hscale]
      rfl
    · rw [compare_eq_iff_eq.mpr hscale.symm, Nat.compare_eq_gt.mpr hsignificand]
      rfl

theorem compare_natCast (m n : Nat) : compare (m : Int) (n : Int) = compare m n := by
  rcases Nat.lt_trichotomy m n with h | h | h
  · rw [Nat.compare_eq_lt.mpr h, compare_lt_iff_lt]
    exact Int.ofNat_lt.mpr h
  · rw [Nat.compare_eq_eq.mpr h, compare_eq_iff_eq]
    exact congrArg _ h
  · rw [Nat.compare_eq_gt.mpr h, compare_gt_iff_gt]
    exact Int.ofNat_lt.mpr h

theorem compare_neg_natCast (m n : Nat) : compare (-(m : Int)) (-(n : Int)) = (compare m n).swap := by
  rcases Nat.lt_trichotomy m n with h | h | h
  · rw [Nat.compare_eq_lt.mpr h, Ordering.swap_lt, compare_gt_iff_gt]
    omega
  · rw [Nat.compare_eq_eq.mpr h, Ordering.swap_eq, compare_eq_iff_eq]
    omega
  · rw [Nat.compare_eq_gt.mpr h, Ordering.swap_gt, compare_lt_iff_lt]
    omega

theorem signedBits_eq_zero {x : Float} (h : magnitudeBits x = 0) : signedBits x = 0 :=
  Int.natAbs_eq_zero.mp (by rw [natAbs_signedBits, h])

section

variable {x y : Float} (hx : x.isFinite = true) (hy : y.isFinite = true)

section

include hy

theorem compare_unpack_of_zero_left (hzero : magnitudeBits x = 0) (hpos : 0 < magnitudeBits y) :
    x.toModel.unpack.compare y.toModel.unpack = some (compare (signedBits x) (signedBits y)) := by
  obtain ⟨_, hunpack⟩ := unpack_finite hpos (isFinite_iff.mp hy)
  rw [unpack_zero hzero, signedBits_eq_zero hzero, hunpack]
  cases hnegative : isNegative y with
  | true =>
      rw [sign_of_negative hnegative, signedBits_of_negative hnegative, compare_gt_iff_gt.mpr (by omega)]
      rfl
  | false =>
      rw [sign_of_nonneg hnegative, signedBits_of_nonneg hnegative, compare_lt_iff_lt.mpr (by omega)]
      rfl

end

include hx

theorem compare_unpack_of_zero_right (hpos : 0 < magnitudeBits x) (hzero : magnitudeBits y = 0) :
    x.toModel.unpack.compare y.toModel.unpack = some (compare (signedBits x) (signedBits y)) := by
  obtain ⟨_, hunpack⟩ := unpack_finite hpos (isFinite_iff.mp hx)
  rw [unpack_zero hzero, signedBits_eq_zero hzero, hunpack]
  cases hnegative : isNegative x with
  | true =>
      rw [sign_of_negative hnegative, signedBits_of_negative hnegative, compare_lt_iff_lt.mpr (by omega)]
      rfl
  | false =>
      rw [sign_of_nonneg hnegative, signedBits_of_nonneg hnegative, compare_gt_iff_gt.mpr (by omega)]
      rfl

include hy

/-- Doubles of one sign are ordered by their bits, and backwards behind a minus. -/
theorem compare_unpack_of_pos (hpos : 0 < magnitudeBits x) (hpos' : 0 < magnitudeBits y) :
    x.toModel.unpack.compare y.toModel.unpack = some (compare (signedBits x) (signedBits y)) := by
  have hmagnitude := compare_magnitudeBits x y
  obtain ⟨_, hunpack⟩ := unpack_finite hpos (isFinite_iff.mp hx)
  obtain ⟨_, hunpack'⟩ := unpack_finite hpos' (isFinite_iff.mp hy)
  rw [hunpack, hunpack']
  cases hnegative : isNegative x with
  | true =>
      rw [sign_of_negative hnegative, signedBits_of_negative hnegative]
      cases hnegative' : isNegative y with
      | true =>
          rw [sign_of_negative hnegative', signedBits_of_negative hnegative', compare_neg_natCast, ← hmagnitude]
          rfl
      | false =>
          rw [sign_of_nonneg hnegative', signedBits_of_nonneg hnegative', compare_lt_iff_lt.mpr (by omega)]
          rfl
  | false =>
      rw [sign_of_nonneg hnegative, signedBits_of_nonneg hnegative]
      cases hnegative' : isNegative y with
      | true =>
          rw [sign_of_negative hnegative', signedBits_of_negative hnegative', compare_gt_iff_gt.mpr (by omega)]
          rfl
      | false =>
          rw [sign_of_nonneg hnegative', signedBits_of_nonneg hnegative', compare_natCast, ← hmagnitude]
          rfl

theorem compare_unpack :
    x.toModel.unpack.compare y.toModel.unpack = some (compare (signedBits x) (signedBits y)) := by
  rcases Nat.eq_zero_or_pos (magnitudeBits x) with hzero | hpos
  · rcases Nat.eq_zero_or_pos (magnitudeBits y) with hzero' | hpos'
    · rw [unpack_zero hzero, unpack_zero hzero', signedBits_eq_zero hzero, signedBits_eq_zero hzero']
      rfl
    · exact compare_unpack_of_zero_left hy hzero hpos'
  · rcases Nat.eq_zero_or_pos (magnitudeBits y) with hzero' | hpos'
    · exact compare_unpack_of_zero_right hx hpos hzero'
    · exact compare_unpack_of_pos hx hy hpos hpos'

theorem lt_iff_signedBits : x < y ↔ signedBits x < signedBits y := by
  rw [lt_iff_compare, compare_unpack hx hy, beq_iff_eq, Option.some.injEq, compare_lt_iff_lt]

theorem le_iff_signedBits : x ≤ y ↔ signedBits x ≤ signedBits y := by
  show decide ((x.toModel.unpack.compare y.toModel.unpack).any (·.isLE) = true) = true ↔ _
  rw [decide_eq_true_iff, compare_unpack hx hy, Option.any_some, Int.isLE_compare]

end

end TurtleChain.Binary64
