import TurtleChain.Proofs.Chain.Printing
import TurtleChain.Proofs.Number.Arithmetic

/-! Numbers in the chains that are put together. A number of at most 53 bits that is not between minus one and
zero is written as the argument that it is read as: an integer if it is whole, and a float otherwise. -/

namespace TurtleChain

open Binary64

/-- The doubles whose text is a number of a chain. -/
structure WritableNumber (x : Float) : Prop where
  isFinite : x.isFinite = true
  small : magnitude x < 2 ^ 53
  not_between : toRat x ≤ -1 ∨ 0 ≤ toRat x

/-- A whole double as an integer. -/
def Binary64.wholeValue (x : Float) : Int :=
  Numeral.applySign (isNegative x) (floorMagnitude x)

/-- The argument that the text of a number is read as. -/
def Arg.ofNumber (x : Float) : Arg :=
  if isWhole x then .int (Int64.ofInt (wholeValue x)) else .float x

theorem Binary64.natAbs_wholeValue (x : Float) : (wholeValue x).natAbs = floorMagnitude x := by
  unfold wholeValue Numeral.applySign
  cases isNegative x <;> simp

theorem Binary64.cast_wholeValue {x : Float} (h : magnitude x = floorMagnitude x) : (wholeValue x : ℚ) = toRat x := by
  unfold wholeValue Numeral.applySign toRat
  cases isNegative x with
  | true => simp [h]
  | false => simp [h]

/-- A whole double is that integer as a double, but for the sign of zero. -/
theorem Binary64.ofInt_wholeValue {x : Float} (hwhole : isWhole x = true) (hsmall : (wholeValue x).natAbs < 2 ^ 53)
    (hpos : 0 < magnitudeBits x) : Float.ofInt (wholeValue x) = x := by
  have hfinite : x.isFinite = true := (Bool.and_eq_true_iff.mp hwhole).1
  have hvalue := (isWhole_iff hfinite).mp hwhole
  have hsign : decide (wholeValue x < 0) = isNegative x := by
    rw [Bool.eq_iff_iff, decide_eq_true_iff, ← toRat_neg_iff hpos, ← cast_wholeValue hvalue, Int.cast_lt_zero]
  rw [ofInt_eq hsmall, natAbs_wholeValue, ← hvalue, roundedBits_magnitude (isFinite_iff.mp hfinite), hsign,
    ofMagnitudeBits_isNegative]

theorem Binary64.magnitude_ne_zero_of_not_isWhole {x : Float} (h : x.isFinite = true) (hwhole : ¬isWhole x = true) :
    magnitude x ≠ 0 :=
  fun hzero => hwhole (isWhole_of_magnitude h (hzero.trans Nat.cast_zero.symm))

theorem toString_applySign {n : Nat} (h : n ≠ 0) (negative : Bool) :
    toString (Numeral.applySign negative n) =
      String.ofList (Numeral.signed negative (Nat.toDigits 10 n ++ Decimal.zeros 0)) := by
  obtain ⟨m, rfl⟩ := Nat.exists_eq_succ_of_ne_zero h
  have hzeros : Decimal.zeros 0 = [] := rfl
  rw [hzeros, List.append_nil]
  apply String.toList_inj.mp
  rw [String.toList_ofList]
  cases negative with
  | true =>
      show ("-" ++ Nat.repr (m + 1)).toList = '-' :: Nat.toDigits 10 (m + 1)
      rw [String.toList_append, Nat.toList_repr]
      rfl
  | false => exact Nat.toList_repr

theorem writable_ofInt {n : Int} (h : n.natAbs < 2 ^ 53) : WritableNumber (Float.ofInt n) := by
  refine ⟨isFinite_ofInt h, ?_, ?_⟩
  · rw [← abs_toRat, toRat_ofInt h, ← Int.cast_abs, Int.abs_eq_natAbs]
    exact_mod_cast h
  · rw [toRat_ofInt h]
    rcases Int.lt_or_le n 0 with hneg | hnonneg
    · exact Or.inl (by exact_mod_cast Int.le_sub_one_of_lt hneg)
    · exact Or.inr (by exact_mod_cast hnonneg)

namespace Decimal

theorem bits_eq_roundedBits (d : Decimal) : d.bits = roundedBits d.value := by
  rw [bits, nearestBits_eq_roundedBits _ (by positivity), value_eq_div]

theorem zeros_add_one {n : Int} (h : 0 ≤ n) : zeros (n + 1) = '0' :: zeros n := by
  rw [zeros, zeros, show (n + 1).toNat = n.toNat + 1 by omega, List.replicate_succ]

/-- Zeros that were dropped are written again. -/
theorem wholePart_dropZeros {digits : Nat} {exponent : Int} (h : 0 ≤ exponent) :
    0 ≤ (dropZeros digits exponent).exponent ∧
      (dropZeros digits exponent).wholePart = Nat.toDigits 10 digits ++ zeros exponent := by
  induction digits using Nat.strongRecOn generalizing exponent with
  | ind digits ih =>
      unfold dropZeros
      split
      · next hzero =>
          have hlt : digits / 10 < digits := Nat.div_lt_self (Nat.pos_of_ne_zero hzero.1) (by decide)
          obtain ⟨hexponent, hdigits⟩ := ih _ hlt (show 0 ≤ exponent + 1 by omega)
          refine ⟨hexponent, ?_⟩
          rw [hdigits, Nat.toDigits_of_base_le (by decide) (show 10 ≤ digits by omega), hzero.2, zeros_add_one h,
            List.append_assoc]
          rfl
      · exact ⟨h, if_pos h⟩

end Decimal

section

variable {x : Float} (h : WritableNumber x)

include h

theorem WritableNumber.floorMagnitude_lt : floorMagnitude x < 2 ^ 53 := by
  rw [floorMagnitude_eq, Nat.floor_lt (magnitude_nonneg x)]
  exact_mod_cast h.small

theorem WritableNumber.toInt_ofInt : (Int64.ofInt (wholeValue x)).toInt = wholeValue x := by
  have hlt := h.floorMagnitude_lt
  have habs := natAbs_wholeValue x
  exact Int64.toInt_ofInt_of_le (by omega) (by omega)

/-- A number that is not whole has digits behind the point. -/
theorem WritableNumber.shortest_exponent (hwhole : ¬isWhole x = true) : ¬0 ≤ (Decimal.shortest .up x).exponent := by
  intro hexponent
  apply hwhole
  have hbits := Decimal.shortest_bits .up (isFinite_iff.mp h.isFinite)
  have hvalue : (Decimal.shortest .up x).value =
      ((Decimal.shortest .up x).digits * 10 ^ (Decimal.shortest .up x).exponent.toNat : Nat) := by
    rw [Decimal.value_eq_div, Int.toNat_of_nonpos (show -(Decimal.shortest .up x).exponent ≤ 0 by omega), pow_zero,
      Nat.cast_one, div_one]
  rw [Decimal.bits_eq_roundedBits, hvalue] at hbits
  generalize (Decimal.shortest .up x).digits * 10 ^ (Decimal.shortest .up x).exponent.toNat = n at hbits
  have hlt : n < 2 ^ 53 := by
    by_contra hge
    have htop : roundedBits ((1 : Nat) * 2 ^ (53 : Int)) ≤ magnitudeBits x := by
      rw [← hbits]
      refine roundedBits_mono (by positivity) ?_
      rw [Nat.cast_one, one_mul]
      exact_mod_cast Nat.le_of_not_lt hge
    have hle := le_magnitude (isFinite_iff.mp h.isFinite) (by decide) (by decide) htop
    rw [Nat.cast_one, one_mul] at hle
    exact absurd h.small (not_lt.mpr hle)
  have hexact := magnitude_ofMagnitudeBits_natCast hlt false
  refine isWhole_of_magnitude h.isFinite ((magnitude_congr ?_).trans hexact)
  rw [magnitudeBits_ofMagnitudeBits (roundedBits_le _), hbits]

theorem WritableNumber.writableFloat (hwhole : ¬isWhole x = true) : WritableFloat x := by
  rw [writableFloat_iff h.isFinite]
  intro hnegative
  have hle : 1 ≤ magnitude x := by
    have hout := h.not_between
    have hpos := lt_of_le_of_ne (magnitude_nonneg x) (magnitude_ne_zero_of_not_isWhole h.isFinite hwhole).symm
    rw [toRat, if_pos hnegative] at hout
    rcases hout with hout | hout
    · linarith
    · linarith
  rw [oneBits_eq, ← roundedBits_magnitude (isFinite_iff.mp h.isFinite)]
  exact roundedBits_mono zero_le_one hle

theorem Arg.wellFormed_ofNumber : (ofNumber x).WellFormed := by
  unfold ofNumber
  split
  · trivial
  · next hwhole => exact h.writableFloat hwhole

theorem Arg.floatText_eq_numberText (hwhole : ¬isWhole x = true) : floatText x = numberText x := by
  have hzero : magnitudeBits x ≠ 0 := fun hzero =>
    magnitude_ne_zero_of_not_isWhole h.isFinite hwhole (magnitude_eq_zero_iff.mpr hzero)
  rw [floatText_eq h.isFinite hzero, numberText, if_neg (mt beq_zero_iff.mp hzero), plainText_eq h.isFinite,
    Decimal.plain_of_neg (h.shortest_exponent hwhole), String.toList_ofList]
  unfold Numeral.signed
  split <;> rfl

theorem Arg.render_ofNumber : (ofNumber x).render = numberText x := by
  unfold ofNumber
  split
  · next hwhole =>
      show toString (Int64.ofInt (wholeValue x)).toInt = _
      rw [h.toInt_ofInt, wholeValue]
      by_cases hzero : magnitudeBits x = 0
      · rw [numberText, if_pos (beq_zero_iff.mpr hzero), floorMagnitude_eq, magnitude_eq_zero_iff.mpr hzero,
          Nat.floor_zero]
        cases isNegative x <;> rfl
      · have hsmall : (isWhole x && decide (floorMagnitude x < Nat.pow 2 53)) = true :=
          Bool.and_eq_true_iff.mpr ⟨hwhole, decide_eq_true h.floorMagnitude_lt⟩
        have hfloor : floorMagnitude x ≠ 0 := by
          intro hfloor
          have hvalue := (isWhole_iff h.isFinite).mp hwhole
          rw [hfloor, Nat.cast_zero, magnitude_eq_zero_iff] at hvalue
          exact hzero hvalue
        obtain ⟨hexponent, hdigits⟩ := @Decimal.wholePart_dropZeros (floorMagnitude x) 0 (le_refl 0)
        rw [numberText, if_neg (mt beq_zero_iff.mp hzero), plainText_eq h.isFinite, Decimal.shortest, if_pos hsmall,
          Decimal.trimmed, Decimal.plain_of_nonneg hexponent, hdigits, String.toList_ofList]
        exact toString_applySign hfloor (isNegative x)
  · next hwhole => exact floatText_eq_numberText h hwhole

end

section

variable {x : Float} (h : WritableNumber x)

include h

theorem WritableNumber.natAbs_wholeValue_lt : (wholeValue x).natAbs < 2 ^ 53 :=
  (natAbs_wholeValue x).symm ▸ h.floorMagnitude_lt

/-- The number that was written is read back up to the sign of zero. -/
theorem Arg.toRat_number?_ofNumber : (ofNumber x).number?.map toRat = some (toRat x) := by
  unfold ofNumber
  split
  · next hwhole =>
      show some (toRat (Float.ofInt (Int64.ofInt (wholeValue x)).toInt)) = some (toRat x)
      rw [h.toInt_ofInt, toRat_ofInt h.natAbs_wholeValue_lt, cast_wholeValue ((isWhole_iff h.isFinite).mp hwhole)]
  · rfl

/-- The number that was written. -/
theorem Arg.number?_ofNumber (hpos : 0 < magnitudeBits x) : (ofNumber x).number? = some x := by
  unfold ofNumber
  split
  · next hwhole =>
      show some (Float.ofInt (Int64.ofInt (wholeValue x)).toInt) = some x
      rw [h.toInt_ofInt, ofInt_wholeValue hwhole h.natAbs_wholeValue_lt hpos]
  · rfl

end

/-- Integers are written as they are. -/
theorem numberText_ofInt {n : Int} (h : n.natAbs < 2 ^ 53) : numberText (Float.ofInt n) = toString n := by
  have hwritable := writable_ofInt h
  have hmagnitude : magnitude (Float.ofInt n) = n.natAbs := by
    rw [← abs_toRat, toRat_ofInt h, Nat.cast_natAbs, Int.cast_abs]
  have hwhole : isWhole (Float.ofInt n) = true := isWhole_of_magnitude hwritable.isFinite hmagnitude
  have hvalue : wholeValue (Float.ofInt n) = n := by
    rw [← Int.cast_inj (α := ℚ), cast_wholeValue ((isWhole_iff hwritable.isFinite).mp hwhole), toRat_ofInt h]
  rw [← Arg.render_ofNumber hwritable, Arg.ofNumber, if_pos hwhole]
  show toString (Int64.ofInt (wholeValue (Float.ofInt n))).toInt = _
  rw [hwritable.toInt_ofInt, hvalue]

theorem Arg.number?_ofInt {n : Int} (h : n ≠ 0) (hlt : n.natAbs < 2 ^ 53) :
    (ofNumber (Float.ofInt n)).number? = some (Float.ofInt n) := by
  refine number?_ofNumber (writable_ofInt hlt) ?_
  rw [Nat.pos_iff_ne_zero, ne_eq, ← toRat_eq_zero_iff, toRat_ofInt hlt, Int.cast_eq_zero]
  exact h

theorem Arg.isNumber_ofNumber (x : Float) : (ofNumber x).isNumber = true := by
  unfold ofNumber
  split <;> rfl

end TurtleChain
