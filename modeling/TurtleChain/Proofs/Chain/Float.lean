import TurtleChain.Chain.Operation
import TurtleChain.Proofs.Number.PlainText

/-! The text of float arguments, and the floats that texts give. A minus stands in front of a number of at
least one, so minus zero and what lies between minus one and zero can neither be written nor read. The text
of every other finite double reads as that double. -/

namespace TurtleChain

open Grammar Binary64

/-- The doubles that are written in chains. -/
structure WritableFloat (x : Float) : Prop where
  isFinite : x.isFinite = true
  ne_neg_zero : x ≠ -0.0
  not_between : ¬(-1 < x ∧ x < 0)

theorem neg_zero_eq : (-0.0 : Float) = ofMagnitudeBits true 0 :=
  eq_of_toBits (by decide)

/-- In bits: a negative one has the magnitude of one at least. -/
theorem writableFloat_iff {x : Float} (h : x.isFinite = true) :
    WritableFloat x ↔ (isNegative x = true → oneBits ≤ magnitudeBits x) := by
  constructor
  · intro hx hnegative
    by_contra hlt
    rcases Nat.eq_zero_or_pos (magnitudeBits x) with hzero | hpos
    · have heq := ofMagnitudeBits_isNegative x
      rw [hnegative, hzero, ← neg_zero_eq] at heq
      exact hx.ne_neg_zero heq.symm
    · exact hx.not_between
        ⟨(neg_one_lt_iff h hnegative).mpr (Nat.lt_of_not_le hlt), (lt_zero_iff h).mpr ⟨hnegative, hpos⟩⟩
  · intro hx
    refine ⟨h, ?_, ?_⟩
    · rintro rfl
      exact absurd (hx (by decide)) (by decide)
    · rintro ⟨hone, hzero⟩
      obtain ⟨hnegative, -⟩ := (lt_zero_iff h).mp hzero
      exact absurd ((neg_one_lt_iff h hnegative).mp hone) (Nat.not_lt_of_le (hx hnegative))

namespace Decimal

theorem bits_one : (⟨1, 0⟩ : Decimal).bits = oneBits := by
  decide +kernel

theorem value_one : (⟨1, 0⟩ : Decimal).value = 1 := by
  rw [value, Nat.cast_one, zpow_zero, mul_one]

/-- The shortest decimal of a double of at least one is at least one. -/
theorem one_le_value_shortest {x : Float} (hx : magnitudeBits x < infinityBits)
    (hone : oneBits ≤ magnitudeBits x) (hnegative : isNegative x = true) : 1 ≤ (shortest .up x).value := by
  rcases Nat.eq_or_lt_of_le hone with heq | hlt
  · have hx : x = ofMagnitudeBits true oneBits := by
      rw [← ofMagnitudeBits_isNegative x, hnegative, heq]
    have hwhole : (isWhole x && decide (floorMagnitude x < Nat.pow 2 53)) = true := by
      rw [hx]
      decide +kernel
    have hfloor : floorMagnitude x = 1 := by
      rw [hx]
      decide +kernel
    rw [shortest, if_pos hwhole, hfloor, trimmed, dropZeros_value, value_one]
  · by_contra hbelow
    have hle : (shortest .up x).value ≤ (⟨1, 0⟩ : Decimal).value := by
      rw [value_one]
      exact (lt_of_not_ge hbelow).le
    have hbits := bits_mono hle
    rw [shortest_bits .up hx, bits_one] at hbits
    omega

end Decimal

namespace Arg

theorem plainText_eq {x : Float} (h : x.isFinite = true) :
    plainText x = String.ofList (Numeral.signed (isNegative x) ((Decimal.shortest .up x).plain "").toList) := by
  have hnan := isNaN_eq_false (isFinite_iff.mp h).le
  rw [plainText, NumeralStyle.render, hnan, h]
  show (if isNegative x = true then "-" ++ (Decimal.shortest .up x).plain "" else (Decimal.shortest .up x).plain "") = _
  cases isNegative x with
  | true => exact String.toList_inj.mp (by simp [Numeral.signed])
  | false => exact (String.ofList_toList).symm

theorem contains_point_signed {ds : List Char} (h : Digits ds) (negative : Bool) :
    (Numeral.signed negative ds).contains '.' = false := by
  have hds : '.' ∉ ds := fun hmem => absurd (h.2 _ hmem) (by decide)
  cases negative <;> simpa [Numeral.signed] using hds

/-- The text of a float argument other than zero: a sign, digits, a point, digits. -/
theorem floatText_eq {x : Float} (h : x.isFinite = true) (hzero : magnitudeBits x ≠ 0) :
    floatText x = String.ofList (Numeral.signed (isNegative x) (Decimal.shortest .up x).wholePart ++
      '.' :: (Decimal.shortest .up x).fractionPart) := by
  have hne : ¬(x == 0) = true := mt beq_zero_iff.mp hzero
  rw [floatText, numberText, if_neg hne, plainText_eq h, h]
  generalize Decimal.shortest .up x = d
  by_cases hexponent : 0 ≤ d.exponent
  · have hfraction : d.fractionPart = ['0'] := by rw [Decimal.fractionPart, if_pos hexponent]
    rw [Decimal.plain_of_nonneg hexponent, hfraction]
    simp only [String.toList_ofList, contains_point_signed (Decimal.digits_wholePart d)]
    exact String.toList_inj.mp (by simp)
  · rw [Decimal.plain_of_neg hexponent]
    have hpoint : (Numeral.signed (isNegative x) (d.wholePart ++ '.' :: d.fractionPart)).contains '.' = true := by
      cases isNegative x <;> simp [Numeral.signed]
    simp only [String.toList_ofList, hpoint]
    cases isNegative x <;> rfl

theorem integer_signed_leading {ds : List Char} (h : Leading ds) (negative : Bool) :
    ∃ n, Integer (Numeral.signed negative ds) n := by
  cases negative with
  | true => exact ⟨_, .negative h⟩
  | false => exact ⟨_, .positive h⟩

/-- The text of a writable float reads as the float. -/
theorem value_floatText {x : Float} (h : WritableFloat x) : Value (floatText x).toList (.float x) := by
  have hfinite := isFinite_iff.mp h.isFinite
  by_cases hzero : magnitudeBits x = 0
  · have hnegative : isNegative x = false := by
      cases hnegative : isNegative x with
      | false => rfl
      | true =>
          have hle := (writableFloat_iff h.isFinite).mp h hnegative
          rw [hzero] at hle
          exact absurd hle (by decide)
    have hx : x = ofMagnitudeBits false 0 := by
      rw [← ofMagnitudeBits_isNegative x, hnegative, hzero]
    have htext : floatText x = "0.0" := by
      rw [hx]
      decide +kernel
    have hread : readFloat? "0.0" = some x := by
      rw [hx]
      decide +kernel
    rw [htext]
    have hdigits : Digits ['0'] := by decide
    exact .float (.mk .zero hdigits) hread
  · have hbits := Decimal.shortest_bits .up hfinite
    have hdigits : 0 < (Decimal.shortest .up x).digits := by
      refine Nat.pos_of_ne_zero fun hnone => hzero ?_
      rw [← hbits, Decimal.bits_zero hnone]
    have hleading := Decimal.leading_wholePart hdigits
    have hone := (writableFloat_iff h.isFinite).mp h
    rw [floatText_eq h.isFinite hzero, String.toList_ofList]
    have hinteger : ∃ n, Integer (Numeral.signed (isNegative x) (Decimal.shortest .up x).wholePart) n := by
      rcases hleading with hleading | ⟨hwhole, hbelow⟩
      · exact integer_signed_leading hleading _
      · cases hnegative : isNegative x with
        | false => exact ⟨0, by rw [hwhole]; exact .zero⟩
        | true =>
            exact absurd (Decimal.one_le_value_shortest hfinite (hone hnegative) hnegative) (not_le.mpr hbelow)
    obtain ⟨n, hinteger⟩ := hinteger
    refine .float (.mk hinteger (Decimal.digits_fractionPart _)) ?_
    rw [Numeral.readFloat?_signed (Decimal.digits_wholePart _) (Decimal.digits_fractionPart _),
      Numeral.toFloat, Decimal.toFloat_eq, Numeral.toDecimal, Decimal.bits_congr (Decimal.value_parts _), hbits,
      ofMagnitudeBits_isNegative]

end Arg

/-! ### Floats that are read -/

theorem ofDigitChars_pos {ds : List Char} (h : Leading ds) : 0 < Nat.ofDigitChars 10 ds 0 := by
  obtain ⟨d, tail, rfl, hzero, hd, -⟩ := h.cons_inv
  have hne : d.toNat ≠ 48 := fun heq => hzero (Char.toNat_inj.mp heq)
  simp only [Char.isDigit, Bool.and_eq_true, decide_eq_true_eq, ge_iff_le, UInt32.le_iff_toNat_le] at hd
  change 48 ≤ d.toNat ∧ _ at hd
  have hpos : 0 < 10 * 0 + (d.toNat - '0'.toNat) := by
    change 0 < 10 * 0 + (d.toNat - 48)
    omega
  rw [Nat.ofDigitChars_cons, Nat.ofDigitChars_eq_ofDigitChars_zero]
  positivity

namespace Numeral

theorem one_le_value {ds digits : List Char} (h : Leading ds) (negative : Bool) :
    1 ≤ (toDecimal ⟨negative, ds, digits, 0⟩).value := by
  have hpos := ofDigitChars_pos h
  have hle : 10 ^ digits.length ≤ Nat.ofDigitChars 10 (ds ++ digits) 0 := by
    rw [Nat.ofDigitChars_append, Nat.ofDigitChars_eq_ofDigitChars_zero]
    exact Nat.le_add_right_of_le (Nat.le_mul_of_pos_right _ hpos)
  rw [toDecimal, Decimal.value, zero_sub, zpow_neg, zpow_natCast, le_mul_inv_iff₀ (by positivity), one_mul]
  exact_mod_cast hle

/-- A text of a float gives a double that is writable, or infinite. -/
theorem readFloat?_fraction {cs : List Char} {x : Float} (h : Fraction cs)
    (hx : readFloat? (String.ofList cs) = some x) :
    magnitudeBits x ≤ infinityBits ∧ (isNegative x = true → oneBits ≤ magnitudeBits x) := by
  obtain ⟨hwhole, hdigits⟩ := h
  obtain ⟨negative, ds, rfl, hds, hleading, -⟩ := integer_signed hwhole
  rw [readFloat?_signed hds hdigits, Option.some.injEq, toFloat, Decimal.toFloat_eq] at hx
  rw [← hx, magnitudeBits_ofMagnitudeBits (Decimal.bits_le _), isNegative_ofMagnitudeBits (Decimal.bits_le _)]
  refine ⟨Decimal.bits_le _, ?_⟩
  intro hnegative
  rw [← Decimal.bits_one]
  apply Decimal.bits_mono
  rw [Decimal.value_one]
  exact one_le_value (hleading hnegative) _

end Numeral

end TurtleChain
