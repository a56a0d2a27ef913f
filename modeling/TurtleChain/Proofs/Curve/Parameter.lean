import TurtleChain.ESequence.Shape
import TurtleChain.Proofs.Chain.NumberText

/-! What the checks of lengths and angles let through. Every length that passes is a number of a chain, and so is
every angle that passes, with either sign. -/

namespace TurtleChain

open Binary64

theorem exists_of_bind_eq_ok {ε α β : Type} {x : Except ε α} {f : α → Except ε β} {b : β} (h : x >>= f = .ok b) :
    ∃ a, x = .ok a ∧ f a = .ok b := by
  cases x with
  | error e => cases h
  | ok a => exact ⟨a, rfl, h⟩

theorem eq_ok_of_mapError {ε ε' α : Type} {x : Except ε α} {f : ε → ε'} {a : α} (h : x.mapError f = .ok a) :
    x = .ok a := by
  cases x with
  | error e => cases h
  | ok b => exact congrArg Except.ok (Except.ok.inj h)

namespace TurnSign

variable (dir : TurnSign)

theorem toInt_flipped : dir.flipped.toInt = -dir.toInt := by
  cases dir <;> rfl

theorem toInt_mul_self : dir.toInt * dir.toInt = 1 := by
  cases dir <;> rfl

theorem natAbs_toInt : dir.toInt.natAbs = 1 := by
  cases dir <;> rfl

end TurnSign

namespace Parameter

theorem limit_eq : limit = Float.ofNat (10 ^ 15) :=
  eq_of_toBits (by decide +kernel)

theorem isFinite_limit : limit.isFinite = true := by
  rw [limit_eq]
  exact isFinite_ofNat (by norm_num)

theorem signedBits_limit : signedBits limit = magnitudeBits limit := by
  rw [limit_eq]
  exact signedBits_of_nonneg (isNegative_ofNat _)

theorem magnitude_limit : magnitude limit = 10 ^ 15 := by
  rw [limit_eq, magnitude_ofNat (by norm_num)]
  norm_num

theorem ofNat_le_limit {n : Nat} (h : n ≤ 10 ^ 15) : magnitudeBits (Float.ofNat n) ≤ magnitudeBits limit := by
  rw [limit_eq, magnitudeBits_ofNat, magnitudeBits_ofNat]
  exact roundedBits_mono (Nat.cast_nonneg n) (by exact_mod_cast h)

section

variable {x : Float}

theorem isFinite_of_le_limit (h : magnitudeBits x ≤ magnitudeBits limit) : x.isFinite = true :=
  isFinite_iff.mpr (h.trans_lt (isFinite_iff.mp isFinite_limit))

/-- Up to the limit every integer is a double of its own. -/
theorem magnitude_lt_of_le_limit (h : magnitudeBits x ≤ magnitudeBits limit) : magnitude x < 2 ^ 53 := by
  have hle := (magnitude_le_iff (isFinite_iff.mp (isFinite_of_le_limit h)) (isFinite_iff.mp isFinite_limit)).mpr h
  rw [magnitude_limit] at hle
  exact hle.trans_lt (by norm_num)

/-- Without its sign a double stands where its magnitude bits say. -/
theorem signedBits_abs (h : x.isFinite = true) : x.abs.isFinite = true ∧ signedBits x.abs = magnitudeBits x := by
  have hlt := isFinite_iff.mp h
  rw [abs_eq h, isFinite_iff, signedBits_of_nonneg (isNegative_ofMagnitudeBits hlt.le false),
    magnitudeBits_ofMagnitudeBits hlt.le]
  exact ⟨hlt, rfl⟩

theorem abs_le_limit_iff (h : x.isFinite = true) :
    x.abs ≤ limit ↔ magnitudeBits x ≤ magnitudeBits limit := by
  obtain ⟨habs, hsigned⟩ := signedBits_abs h
  rw [le_iff_signedBits habs isFinite_limit, signedBits_limit, hsigned, Nat.cast_le]

/-- In bits: at most the limit, and one at least behind a minus. -/
theorem writable_of_le_limit (hle : magnitudeBits x ≤ magnitudeBits limit)
    (hone : isNegative x = true → magnitudeBits x = 0 ∨ oneBits ≤ magnitudeBits x) : WritableNumber x := by
  have hfinite := isFinite_of_le_limit hle
  refine ⟨hfinite, magnitude_lt_of_le_limit hle, ?_⟩
  unfold toRat
  split
  · next hnegative =>
      rcases hone hnegative with hzero | hone
      · exact Or.inr (by rw [magnitude_eq_zero_iff.mpr hzero, neg_zero])
      · exact Or.inl (neg_le_neg (one_le_magnitude hone (isFinite_iff.mp hfinite)))
  · exact Or.inr (magnitude_nonneg x)

/-- In bits: a length has no sign, is not zero, and is at most the limit. -/
theorem checkLength_eq_ok_iff {parameter : Parameter} :
    parameter.checkLength x = .ok () ↔
      isNegative x = false ∧ 0 < magnitudeBits x ∧ magnitudeBits x ≤ magnitudeBits limit := by
  unfold checkLength
  cases hfinite : x.isFinite with
  | false =>
      have hinfinite : ¬magnitudeBits x ≤ magnitudeBits limit := fun hle => by
        rw [isFinite_of_le_limit hle] at hfinite
        cases hfinite
      exact iff_of_false (by simp) fun h => hinfinite h.2.2
  | true =>
      have hzero : (0 : Float).isFinite = true := by decide
      have hsigned : signedBits (0 : Float) = 0 := by decide
      have hle := le_iff_signedBits hfinite hzero
      have hgt := lt_iff_signedBits isFinite_limit hfinite
      rw [hsigned] at hle
      rw [signedBits_limit] at hgt
      simp only [Bool.not_true, Bool.false_or, decide_eq_true_eq, hle, gt_iff_lt, hgt]
      cases hnegative : isNegative x with
      | true =>
          rw [signedBits_of_negative hnegative, if_pos (by omega)]
          exact iff_of_false (by simp) (by simp)
      | false =>
          rw [signedBits_of_nonneg hnegative]
          split
          · exact iff_of_false (by simp) (by omega)
          · split
            · exact iff_of_false (by simp) (by omega)
            · exact iff_of_true rfl ⟨rfl, by omega, by omega⟩

/-- Whole lengths up to the limit pass. -/
theorem checkLength_ofNat (parameter : Parameter) {n : Nat} (hpos : 0 < n) (hle : n ≤ 10 ^ 15) :
    parameter.checkLength (Float.ofNat n) = .ok () :=
  checkLength_eq_ok_iff.mpr ⟨isNegative_ofNat n, magnitudeBits_ofNat_pos hpos, ofNat_le_limit hle⟩

/-- The parameter is only named in the error. -/
theorem checkLength_congr {parameter : Parameter} (h : parameter.checkLength x = .ok ()) (parameter' : Parameter) :
    parameter'.checkLength x = .ok () :=
  checkLength_eq_ok_iff.mpr (checkLength_eq_ok_iff.mp h)

theorem writable_of_checkLength {parameter : Parameter} (h : parameter.checkLength x = .ok ()) :
    WritableNumber x := by
  obtain ⟨hnegative, -, hle⟩ := checkLength_eq_ok_iff.mp h
  refine writable_of_le_limit hle fun hminus => ?_
  rw [hnegative] at hminus
  cases hminus

end

end Parameter

namespace ESequenceShape

variable {x : Float}

/-- In bits: an angle is zero or at least one, and at most the limit. -/
theorem checkAngle_eq_ok_iff :
    checkAngle x = .ok () ↔
      (magnitudeBits x = 0 ∨ oneBits ≤ magnitudeBits x) ∧ magnitudeBits x ≤ magnitudeBits Parameter.limit := by
  unfold checkAngle
  cases hfinite : x.isFinite with
  | false =>
      have hinfinite : ¬magnitudeBits x ≤ magnitudeBits Parameter.limit := fun hle => by
        rw [Parameter.isFinite_of_le_limit hle] at hfinite
        cases hfinite
      exact iff_of_false (by simp) fun h => hinfinite h.2
  | true =>
      obtain ⟨habs, hsigned⟩ := Parameter.signedBits_abs hfinite
      have hone : (1 : Float).isFinite = true := by decide
      have hsignedOne : signedBits (1 : Float) = oneBits := by decide
      have hlt := lt_iff_signedBits habs hone
      have hgt := lt_iff_signedBits Parameter.isFinite_limit habs
      rw [hsigned, hsignedOne] at hlt
      rw [hsigned, Parameter.signedBits_limit] at hgt
      have hzero : (x != 0) = true ↔ magnitudeBits x ≠ 0 := by
        rw [bne, Bool.not_eq_true', ← Bool.not_eq_true, beq_zero_iff]
      simp only [Bool.not_true, Bool.false_eq_true, if_false, Bool.and_eq_true, hzero, decide_eq_true_eq, hlt,
        gt_iff_lt, hgt]
      split
      · exact iff_of_false (by simp) (by omega)
      · split
        · exact iff_of_false (by simp) (by omega)
        · exact iff_of_true rfl (by omega)

/-- Whole angles up to the limit pass. -/
theorem checkAngle_ofNat {n : Nat} (hpos : 0 < n) (hle : n ≤ 10 ^ 15) : checkAngle (Float.ofNat n) = .ok () :=
  checkAngle_eq_ok_iff.mpr ⟨Or.inr (oneBits_le_ofNat hpos), Parameter.ofNat_le_limit hle⟩

theorem toFloat_dir (dir : TurnSign) : dir.toFloat.isFinite = true ∧ magnitude dir.toFloat = 1 := by
  cases dir with
  | negative => exact ⟨by decide, magnitude_eq_one (by decide)⟩
  | positive => exact ⟨by decide, magnitude_eq_one (by decide)⟩

/-- The turns by an angle to both sides are numbers of a chain. -/
theorem writable_turn (h : checkAngle x = .ok ()) (dir : TurnSign) : WritableNumber (dir.toFloat * x) := by
  obtain ⟨hone, hle⟩ := checkAngle_eq_ok_iff.mp h
  have hfinite := Parameter.isFinite_of_le_limit hle
  have hmul := mul_of_magnitude_one (toFloat_dir dir).1 (toFloat_dir dir).2 hfinite
  have hbits := magnitudeBits_ofMagnitudeBits (isFinite_iff.mp hfinite).le (isNegative dir.toFloat != isNegative x)
  rw [← hmul] at hbits
  rw [← hbits] at hone hle
  exact Parameter.writable_of_le_limit hle fun _ => hone

end ESequenceShape

end TurtleChain
