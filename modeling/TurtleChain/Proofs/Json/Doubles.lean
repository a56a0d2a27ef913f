import TurtleChain.Json.Decode
import TurtleChain.Proofs.Chain.NumberText
import TurtleChain.Proofs.Json.Scalars

/-! Doubles in JSON. The number that a finite double is written as stands for a decimal whose nearest double is
that double, so a reader that rounds once gets it back. The reader here rounds once for each of its three steps, and
still gets it back where the first two are exact: if the digits make an integer of 53 bits and the power of ten is a
double. -/

namespace TurtleChain

open Grammar Binary64

namespace Json

/-! ### The written number -/

theorem read?_scientific {negative : Bool} {whole fraction ds : List Char} {sign : Char} (hwhole : Whole whole)
    (hfraction : FractionSpelling fraction) (hsign : sign = '+' ∨ sign = '-') (hds : Digits ds) :
    Numeral.read? (Numeral.signed negative whole ++ (fraction ++ 'e' :: sign :: ds)) =
      some ⟨negative, whole, fraction.drop 1, Numeral.applySign (sign = '-') (Nat.ofDigitChars 10 ds 0)⟩ := by
  have hmark (rest : List Char) : Stops Char.isDigit ('e' :: rest) := stops_cons.mpr (by decide)
  have hinteger : Numeral.readInt? (sign :: ds) = some (Numeral.applySign (sign = '-') (Nat.ofDigitChars 10 ds 0)) := by
    have hall : ds ≠ [] ∧ ds.all Char.isDigit = true := ⟨hds.1, List.all_eq_true.mpr hds.2⟩
    rcases hsign with rfl | rfl
    · exact if_pos hall
    · exact if_pos hall
  have hsplit := Numeral.splitDigits_append hwhole.digits.2 (hfraction.stops (hmark (sign :: ds)))
  rw [Numeral.read?, Numeral.splitSign_signed hwhole.digits]
  cases hfraction with
  | none =>
      rw [List.nil_append] at hsplit
      simp [hsplit, hwhole.digits.1, Numeral.readExponent?, hinteger]
  | digits hdigits =>
      rw [List.cons_append] at hsplit
      have hsplit' := Numeral.splitDigits_append hdigits.2 (hmark (sign :: ds))
      simp [hsplit, hsplit', hwhole.digits.1, Numeral.readExponent?, hinteger]

/-- The digits and the exponent are those of the decimal. -/
theorem toDecimal_scientific (d : Decimal) (negative : Bool) :
    Numeral.toDecimal ⟨negative, (Nat.toDigits 10 d.digits).take 1, (Nat.toDigits 10 d.digits).drop 1,
      d.leadingExponent⟩ = d := by
  have hlength : 0 < (Nat.toDigits 10 d.digits).length := Nat.length_toDigits_pos
  have hexponent : d.leadingExponent - ((Nat.toDigits 10 d.digits).drop 1).length = d.exponent := by
    rw [Decimal.leadingExponent, List.length_drop]
    omega
  rw [Numeral.toDecimal, List.take_append_drop, Nat.ofDigitChars_ten_toDigits, hexponent]

theorem applySign_natAbs (n : Int) : Numeral.applySign (decide (n < 0)) n.natAbs = n := by
  unfold Numeral.applySign
  split
  · next h => exact Int.neg_eq_comm.mp (Int.ofNat_natAbs_of_nonpos (of_decide_eq_true h).le).symm
  · next h => exact Int.natAbs_of_nonneg (by simpa using h)

/-- The number of a finite double stands for a decimal whose nearest double it is. -/
theorem exists_read?_render {x : Float} (h : x.isFinite = true) :
    ∃ n, Numeral.read? (jsonStyle.render x).toList = some n ∧ n.toFloat = x := by
  have hx := isFinite_iff.mp h
  have hbits := Decimal.shortest_bits .toEven hx
  have htoFloat (n : Numeral) (hnegative : n.negative = isNegative x)
      (hvalue : n.toDecimal.value = (Decimal.shortest .toEven x).value) : n.toFloat = x := by
    rw [Numeral.toFloat, Decimal.toFloat_eq, Decimal.bits_congr hvalue, hbits, hnegative, ofMagnitudeBits_isNegative]
  rw [render_of_isFinite h]
  rcases magnitude_cases x with hplain | ⟨hdigits, hscientific⟩
  · rw [hplain, plain_eq, signed_append]
    exact ⟨_, Numeral.read?_signed (Decimal.digits_wholePart _) (Decimal.digits_fractionPart _),
      htoFloat ⟨isNegative x, _, _, 0⟩ rfl (Decimal.value_parts _)⟩
  · obtain ⟨fraction, sign, htext, hfraction, hdrop, hsign, hnegative⟩ :=
      exists_scientific_eq (Decimal.shortest .toEven x)
    have hwhole : Whole ((Nat.toDigits 10 (Decimal.shortest .toEven x).digits).take 1) :=
      .inr ((leading_toDigits hdigits).take one_pos)
    rw [hscientific, htext, signed_append, read?_scientific hwhole hfraction hsign (digits_toDigits _), hdrop,
      Nat.ofDigitChars_ten_toDigits, decide_eq_decide.mpr hnegative, applySign_natAbs]
    exact ⟨_, rfl, htoFloat _ rfl (congrArg Decimal.value (toDecimal_scientific _ (isNegative x)))⟩

/-! ### Reading digits -/

theorem le_ofDigitChars (ds : List Char) (significand : Nat) : significand ≤ Nat.ofDigitChars 10 ds significand := by
  rw [Nat.ofDigitChars_eq_ofDigitChars_zero]
  exact Nat.le_add_right_of_le (Nat.le_mul_of_pos_left _ (by positivity))

/-- Digits that make an integer of 64 bits are all taken. -/
theorem takeDigits_eq (ds : List Char) {significand : Nat} (h : Nat.ofDigitChars 10 ds significand < UInt64.size)
    (taken : Nat) : takeDigits significand taken ds = (Nat.ofDigitChars 10 ds significand, taken + ds.length) := by
  induction ds generalizing significand taken with
  | nil => rfl
  | cons d ds ih =>
      rw [Nat.ofDigitChars_cons] at h ⊢
      have hstep : takeDigits significand taken (d :: ds) =
          takeDigits (10 * significand + (d.toNat - '0'.toNat)) (taken + 1) ds :=
        if_pos ((le_ofDigitChars ds _).trans_lt h)
      rw [hstep, ih h, List.length_cons, Nat.add_right_comm, Nat.add_assoc]

/-! ### Scaling by a power of ten -/

theorem roundedBits_lt_infinityBits {q : ℚ} (hnonneg : 0 ≤ q) (hle : q ≤ (10 ^ 40 : Nat)) :
    roundedBits q < infinityBits := by
  have htop : roundedBits (10 ^ 40 : Nat) < infinityBits := by decide +kernel
  exact (roundedBits_mono hnonneg hle).trans_lt htop

theorem powerOfTen_eq (n : Nat) : powerOfTen n = ofMagnitudeBits false (roundedBits (10 ^ n)) := by
  rw [powerOfTen, nearest, nearestBits_eq_roundedBits _ one_pos, Nat.pow_eq]
  push_cast
  rw [div_one]

theorem magnitudeBits_powerOfTen (n : Nat) : magnitudeBits (powerOfTen n) = roundedBits (10 ^ n) := by
  rw [powerOfTen_eq, magnitudeBits_ofMagnitudeBits (roundedBits_le _)]

theorem isNegative_powerOfTen (n : Nat) : isNegative (powerOfTen n) = false := by
  rw [powerOfTen_eq, isNegative_ofMagnitudeBits (roundedBits_le _)]

section

variable {n : Nat} (h : n ≤ 22)

include h

theorem roundedBits_powerOfTen_lt : roundedBits (10 ^ n) < infinityBits := by
  refine roundedBits_lt_infinityBits (by positivity) ?_
  exact_mod_cast Nat.pow_le_pow_right (by decide) (h.trans (by decide))

theorem isFinite_powerOfTen : (powerOfTen n).isFinite = true := by
  rw [isFinite_iff, magnitudeBits_powerOfTen n]
  exact roundedBits_powerOfTen_lt h

/-- The power is a power of two of an odd number of 53 bits, so it is a double. -/
theorem magnitude_powerOfTen : magnitude (powerOfTen n) = 10 ^ n := by
  have hvalue : ((5 ^ n : Nat) : ℚ) * 2 ^ (n : Int) = 10 ^ n := by
    rw [Nat.cast_pow, zpow_natCast, ← mul_pow]
    norm_num
  have hodd : 5 ^ n < 2 ^ 53 := (Nat.pow_le_pow_right (by decide) h).trans_lt (by decide)
  have hscale : minScale ≤ (n : Int) := (show minScale ≤ 0 by decide).trans (Int.natCast_nonneg n)
  have hexact := magnitude_of_bits_eq (x := powerOfTen n) hodd hscale
  rw [hvalue] at hexact
  exact hexact (roundedBits_powerOfTen_lt h) (magnitudeBits_powerOfTen n)

theorem magnitudeBits_powerOfTen_pos : 0 < magnitudeBits (powerOfTen n) := by
  refine Nat.pos_of_ne_zero fun hzero => ?_
  have hmagnitude := magnitude_powerOfTen h
  rw [magnitude_eq_zero_iff.mpr hzero] at hmagnitude
  exact absurd hmagnitude (by positivity)

variable {m : Nat} (hm : m < 2 ^ 53)

include hm

theorem ofNat_mul_powerOfTen :
    Float.ofNat m * powerOfTen n = ofMagnitudeBits false (Decimal.bits ⟨m, n⟩) := by
  rw [mul_eq (isFinite_ofNat (hm.le.trans (by decide))) (isFinite_powerOfTen h), magnitude_ofNat hm,
    magnitude_powerOfTen h, isNegative_ofNat, isNegative_powerOfTen, Decimal.bits_eq_roundedBits, Decimal.value,
    zpow_natCast]
  rfl

theorem ofNat_div_powerOfTen :
    Float.ofNat m / powerOfTen n = ofMagnitudeBits false (Decimal.bits ⟨m, -n⟩) := by
  rw [div_eq (isFinite_ofNat (hm.le.trans (by decide))) (isFinite_powerOfTen h) (magnitudeBits_powerOfTen_pos h),
    magnitude_ofNat hm, magnitude_powerOfTen h, isNegative_ofNat, isNegative_powerOfTen, Decimal.bits_eq_roundedBits,
    Decimal.value, zpow_neg, zpow_natCast, div_eq_mul_inv]
  rfl

end

theorem bits_lt_infinityBits {d : Decimal} (hdigits : d.digits < 2 ^ 53) (hexponent : d.exponent.natAbs ≤ 22) :
    d.bits < infinityBits := by
  rw [Decimal.bits_eq_roundedBits, Decimal.value]
  refine roundedBits_lt_infinityBits (by positivity) ?_
  have hpower : (10 : ℚ) ^ d.exponent ≤ 10 ^ (22 : Int) := zpow_le_zpow_right₀ (by norm_num) (by omega)
  calc (d.digits : ℚ) * 10 ^ d.exponent ≤ (2 ^ 53 : Nat) * 10 ^ (22 : Int) :=
        mul_le_mul (by exact_mod_cast hdigits.le) hpower (by positivity) (by positivity)
    _ ≤ (10 ^ 40 : Nat) := by norm_num

/-- With a significand of 53 bits and a power of ten that is a double, only the last step rounds. -/
theorem scaled?_eq {significand : Nat} (hsignificand : significand < 2 ^ 53) {exponent : Int}
    (hexponent : exponent.natAbs ≤ 22) :
    scaled? significand exponent = some (ofMagnitudeBits false (Decimal.bits ⟨significand, exponent⟩)) := by
  unfold scaled?
  by_cases hnonneg : 0 ≤ exponent
  · obtain ⟨n, rfl⟩ := Int.eq_ofNat_of_zero_le hnonneg
    have hlt : Decimal.bits ⟨significand, n⟩ < infinityBits := bits_lt_infinityBits hsignificand hexponent
    have hfinite : (ofMagnitudeBits false (Decimal.bits ⟨significand, n⟩)).isFinite = true := by
      rwa [isFinite_iff, magnitudeBits_ofMagnitudeBits hlt.le]
    rw [if_pos hnonneg, if_pos (by omega), Int.toNat_natCast, ofNat_mul_powerOfTen (by omega) hsignificand]
    exact if_pos hfinite
  · obtain ⟨n, rfl⟩ := Int.exists_eq_neg_ofNat (Int.le_of_not_le hnonneg)
    rw [if_neg hnonneg]
    simp only [neg_neg, Int.toNat_natCast]
    rw [if_pos (by omega), ofNat_div_powerOfTen (by omega) hsignificand]

/-- The number is read as the double nearest to it. -/
theorem numeralToFloat?_eq {n : Numeral} (hdigits : n.toDecimal.digits < 2 ^ 53)
    (hexponent : n.toDecimal.exponent.natAbs ≤ 22) : numeralToFloat? n = some n.toFloat := by
  obtain ⟨negative, whole, fraction, exponent⟩ := n
  rw [Numeral.toDecimal] at hdigits hexponent
  have hsize : Nat.ofDigitChars 10 fraction (Nat.ofDigitChars 10 whole 0) < UInt64.size := by
    rw [← Nat.ofDigitChars_append]
    exact hdigits.trans (by decide)
  have hwhole := takeDigits_eq whole ((le_ofDigitChars fraction _).trans_lt hsize) 0
  have hfraction := takeDigits_eq fraction hsize 0
  have hscaled := scaled?_eq hdigits hexponent
  rw [numeralToFloat?]
  simp only [hwhole, hfraction, Nat.zero_add, Nat.sub_self, ← Nat.ofDigitChars_append, Nat.cast_zero, add_zero,
    hscaled, Option.bind_eq_bind, Option.bind_some, Numeral.toFloat, Numeral.toDecimal, Decimal.toFloat_eq]
  cases negative with
  | true =>
      have hlt := bits_lt_infinityBits hdigits hexponent
      have hmagnitude := magnitudeBits_ofMagnitudeBits hlt.le false
      rw [if_pos rfl, neg_eq (isFinite_iff.mpr (hmagnitude.trans_lt hlt)), hmagnitude,
        isNegative_ofMagnitudeBits hlt.le]
      rfl
  | false => rfl

/-! ### Doubles that are read back -/

/-- The number of the double is read as that double. -/
def ReadsBack (x : Float) : Prop :=
  (ofFloat x).toFloat? = some x

theorem toFloat?_ofFloat_of_not_isFinite {x : Float} (h : x.isFinite = false) : (ofFloat x).toFloat? = none := by
  rw [ofFloat, h]
  rfl

theorem ReadsBack.isFinite {x : Float} (h : ReadsBack x) : x.isFinite = true := by
  cases hx : x.isFinite with
  | true => rfl
  | false =>
      rw [ReadsBack, toFloat?_ofFloat_of_not_isFinite hx] at h
      cases h

/-- A finite double is read back if the written digits make an integer of 53 bits and the power of ten behind them
is a double. -/
theorem readsBack_of_digits_lt {x : Float} (h : x.isFinite = true) {n : Numeral}
    (hn : Numeral.read? (jsonStyle.render x).toList = some n) (hdigits : n.toDecimal.digits < 2 ^ 53)
    (hexponent : n.toDecimal.exponent.natAbs ≤ 22) : ReadsBack x := by
  obtain ⟨n', hn', hx⟩ := exists_read?_render h
  obtain rfl : n = n' := Option.some.inj (hn.symm.trans hn')
  rw [ReadsBack, ofFloat, if_pos h, toFloat?, hn, Option.bind_some, numeralToFloat?_eq hdigits hexponent, hx]

-- The next power of ten is no double, and its error shows in a product with it.
example : (ofFloat 3e23).toFloat? ≠ some 3e23 := by decide +kernel

end Json

end TurtleChain
