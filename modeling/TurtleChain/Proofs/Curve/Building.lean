import TurtleChain.Proofs.Config.Validation

/-! Which side lengths a curve can be built from. A side that passes its check gives every family a seed, and all but
the generic one a table. That one is laid out with half the side and with its double, and these are checked as well:
half of the least double is zero, and the double of a side may be over the limit. -/

namespace TurtleChain

open Binary64

namespace Parameter

theorem exists_checkLength_error {parameter : Parameter} {x : Float} {e : InvalidParameter}
    (h : parameter.checkLength x = .error e) (parameter' : Parameter) : ∃ e', parameter'.checkLength x = .error e' := by
  cases h' : parameter'.checkLength x with
  | error e' => exact ⟨e', rfl⟩
  | ok =>
      rw [checkLength_congr h' parameter] at h
      cases h

theorem checkLength_of_zero (parameter : Parameter) {x : Float} (h : magnitudeBits x = 0) :
    parameter.checkLength x = .error ⟨parameter, .notPositive x⟩ := by
  have hfinite : x.isFinite = true := isFinite_of_le_limit (h ▸ Nat.zero_le _)
  have hle := le_iff_signedBits hfinite (show (0 : Float).isFinite = true by decide)
  have hsigned : signedBits x = 0 := by rw [signedBits, h]; simp
  rw [hsigned, show signedBits 0 = 0 by decide] at hle
  rw [checkLength, if_pos (by simp [hle])]

theorem checkLength_of_limit_lt (parameter : Parameter) {x : Float} (hfinite : x.isFinite = true)
    (hnegative : isNegative x = false) (hover : magnitudeBits limit < magnitudeBits x) :
    parameter.checkLength x = .error ⟨parameter, .tooLong x⟩ := by
  have hle := le_iff_signedBits hfinite (show (0 : Float).isFinite = true by decide)
  have hgt := lt_iff_signedBits isFinite_limit hfinite
  rw [signedBits_of_nonneg hnegative, show signedBits 0 = 0 by decide] at hle
  rw [signedBits_limit, signedBits_of_nonneg hnegative] at hgt
  have hpos : ¬x ≤ 0 := fun hzero => absurd (hle.mp hzero) (by omega)
  have hlimit : x > limit := hgt.mpr (by omega)
  rw [checkLength, if_neg (by simp [hfinite, hpos]), if_pos (by simp [hlimit])]

section

variable {parameter : Parameter} {x : Float} (h : parameter.checkLength x = .ok ())

include h

/-! ### Half a length -/

theorem half_eq : x / 2 = ofMagnitudeBits false (roundedBits (magnitude x / 2)) := by
  obtain ⟨hnegative, -, hle⟩ := checkLength_eq_ok_iff.mp h
  have htwo : magnitude 2 = 2 := magnitude_ofNat (n := 2) (by decide)
  have hdiv := div_eq (isFinite_of_le_limit hle) (show (2 : Float).isFinite = true by decide) (by decide)
  have hsign : isNegative 2 = false := by decide
  rw [hnegative, hsign, htwo] at hdiv
  exact hdiv

theorem magnitudeBits_half : magnitudeBits (x / 2) = roundedBits (magnitude x / 2) := by
  rw [half_eq h, magnitudeBits_ofMagnitudeBits (roundedBits_le _)]

theorem isNegative_half : isNegative (x / 2) = false := by
  rw [half_eq h, isNegative_ofMagnitudeBits (roundedBits_le _)]

theorem magnitudeBits_half_le : magnitudeBits (x / 2) ≤ magnitudeBits limit := by
  obtain ⟨-, -, hle⟩ := checkLength_eq_ok_iff.mp h
  have hnonneg := magnitude_nonneg x
  refine le_trans ?_ hle
  rw [magnitudeBits_half h, ← roundedBits_magnitude (isFinite_iff.mp (isFinite_of_le_limit hle))]
  exact roundedBits_mono (by linarith) (by linarith)

/-- Half of the least double is zero. -/
theorem checkLength_half_of_least (parameter' : Parameter) (hleast : magnitude x ≤ 2 ^ minScale) :
    parameter'.checkLength (x / 2) = .error ⟨parameter', .notPositive (x / 2)⟩ := by
  have hnonneg := magnitude_nonneg x
  obtain ⟨hzero, -⟩ := roundedBits_near_least
  have hmono : roundedBits (magnitude x / 2) ≤ roundedBits (2 ^ minScale / 2) :=
    roundedBits_mono (by linarith) (by linarith)
  exact checkLength_of_zero parameter' (by rw [magnitudeBits_half h]; omega)

/-- Half of any other double is a length again. -/
theorem checkLength_half (parameter' : Parameter) (hlt : 2 ^ minScale < magnitude x) :
    parameter'.checkLength (x / 2) = .ok () := by
  obtain ⟨-, hpos, hle⟩ := checkLength_eq_ok_iff.mp h
  have hbits : 1 < magnitudeBits x := by
    -- The only bits up to one are those of zero and of the least double.
    by_contra hone
    have hvalue := magnitude_eq_of_bits (x := x) (le_refl minScale) (show 1 < 2 ^ 53 by decide) (by simp)
      (by rw [Int.sub_self]; simp; omega)
    rw [hvalue, Nat.cast_one, one_mul] at hlt
    exact lt_irrefl _ hlt
  obtain ⟨-, hthree, -, hrounded⟩ := roundedBits_near_least
  have htwo := @le_magnitude x 2 minScale (isFinite_iff.mp (isFinite_of_le_limit hle)) (by decide) (le_refl minScale)
  rw [Nat.cast_two] at htwo
  have hdouble := htwo (hrounded.trans hbits)
  have hleast : (0 : ℚ) < 2 ^ minScale := by positivity
  refine checkLength_eq_ok_iff.mpr ⟨isNegative_half h, ?_, magnitudeBits_half_le h⟩
  rw [magnitudeBits_half h]
  exact hthree.trans_le (roundedBits_mono (by positivity) (by linarith))

/-! ### Four halves of a length -/

theorem four_halves_eq :
    4 * (x / 2) = ofMagnitudeBits false (roundedBits (4 * magnitude (x / 2))) := by
  have hfour : magnitude 4 = 4 := magnitude_ofNat (n := 4) (by decide)
  have hmul := mul_eq (show (4 : Float).isFinite = true by decide) (isFinite_of_le_limit (magnitudeBits_half_le h))
  have hsign : isNegative 4 = false := by decide
  rw [isNegative_half h, hsign, hfour] at hmul
  exact hmul

theorem magnitudeBits_four_halves : magnitudeBits (4 * (x / 2)) = roundedBits (4 * magnitude (x / 2)) := by
  rw [four_halves_eq h, magnitudeBits_ofMagnitudeBits (roundedBits_le _)]

theorem isNegative_four_halves : isNegative (4 * (x / 2)) = false := by
  rw [four_halves_eq h, isNegative_ofMagnitudeBits (roundedBits_le _)]

/-- The double of a length up to half the limit is a length again. -/
theorem checkLength_four_halves (parameter' : Parameter) (hlt : 2 ^ minScale < magnitude x)
    (hle : magnitude x ≤ 5 * 10 ^ 14) : parameter'.checkLength (4 * (x / 2)) = .ok () := by
  obtain ⟨-, hpos, -⟩ := checkLength_eq_ok_iff.mp (checkLength_half h parameter hlt)
  obtain ⟨-, hthree, -⟩ := roundedBits_near_least
  have hlow := least_le_magnitude hpos (isFinite_iff.mp (isFinite_of_le_limit (magnitudeBits_half_le h)))
  have hleast : (0 : ℚ) < 2 ^ minScale := by positivity
  have hnonneg := magnitude_nonneg x
  have hhalfNonneg := magnitude_nonneg (x / 2)
  have hhigh : magnitude (x / 2) ≤ (25 * 10 ^ 13 : Nat) := by
    apply magnitude_le_natCast (by decide)
    rw [magnitudeBits_half h]
    apply roundedBits_mono (by linarith)
    push_cast
    linarith
  push_cast at hhigh
  rw [checkLength_eq_ok_iff, isNegative_four_halves h, magnitudeBits_four_halves h]
  refine ⟨rfl, hthree.trans_le (roundedBits_mono (by positivity) (by linarith)), ?_⟩
  rw [← roundedBits_magnitude (isFinite_iff.mp isFinite_limit), magnitude_limit]
  exact roundedBits_mono (by linarith) (by linarith)

/-- Above one nothing is lost in a half. -/
theorem significand_mul_le_half (hone : 1 ≤ magnitude x) :
    ∃ k : Int, minScale ≤ k ∧ magnitude x = significand x * 2 ^ (k + 1) ∧
      significand x * 2 ^ k ≤ magnitude (x / 2) := by
  have hscale : minScale + 1 ≤ scale x := by
    by_contra hlow
    have hleast : minScale = -1074 := rfl
    have hpow : (2 : ℚ) ^ scale x ≤ 2 ^ (-53 : Int) := zpow_le_zpow_right₀ one_le_two (by omega)
    have hsignificand : (significand x : ℚ) < 2 ^ 53 := by exact_mod_cast significand_lt x
    have hlt : magnitude x < 2 ^ 53 * 2 ^ (-53 : Int) :=
      mul_lt_mul_of_lt_of_le_of_nonneg_of_pos hsignificand hpow (by positivity) (by positivity)
    norm_num at hlt
    linarith
  have hvalue : magnitude x / 2 = significand x * 2 ^ (scale x - 1) := by
    rw [magnitude, zpow_sub_one₀ two_ne_zero]
    ring
  refine ⟨scale x - 1, by omega, by rw [sub_add_cancel]; rfl, ?_⟩
  have hfinite := isFinite_iff.mp (isFinite_of_le_limit (magnitudeBits_half_le h))
  refine le_magnitude hfinite (significand_lt x) (by omega) ?_
  rw [← hvalue, magnitudeBits_half h]

/-- The double of a longer one is over the limit. -/
theorem checkLength_four_halves_of_long (parameter' : Parameter) (hover : 5 * 10 ^ 14 < magnitude x) :
    parameter'.checkLength (4 * (x / 2)) = .error ⟨parameter', .tooLong (4 * (x / 2))⟩ := by
  have hlimit := isFinite_iff.mp isFinite_limit
  have hhalf := magnitude_lt_of_le_limit (magnitudeBits_half_le h)
  have hnonneg := magnitude_nonneg (x / 2)
  refine checkLength_of_limit_lt parameter' (isFinite_iff.mpr ?_) (isNegative_four_halves h) ?_
  · have htop : roundedBits (2 ^ 55 : Nat) < infinityBits := roundedBits_natCast_lt (by decide)
    rw [magnitudeBits_four_halves h]
    refine (roundedBits_mono (by linarith) ?_).trans_lt htop
    push_cast
    linarith
  · -- The exact double has the significand of the length, so rounding cannot bring it down to the limit.
    by_contra hle
    obtain ⟨k, hk, hvalue, hge⟩ := significand_mul_le_half h (by linarith)
    have hdouble : significand x * 2 ^ (k + 2) = 2 * magnitude x := by
      rw [hvalue, show k + 2 = k + 1 + 1 by omega, zpow_add_one₀ two_ne_zero]
      ring
    have hfour : (significand x : ℚ) * 2 ^ (k + 2) ≤ 4 * magnitude (x / 2) := by
      rw [show k + 2 = k + 1 + 1 by omega, zpow_add_one₀ two_ne_zero, zpow_add_one₀ two_ne_zero]
      linarith
    have hmono := roundedBits_mono (show 0 ≤ (significand x : ℚ) * 2 ^ (k + 2) by positivity) hfour
    rw [← magnitudeBits_four_halves h] at hmono
    have hbound := le_magnitude hlimit (significand_lt x) (show minScale ≤ k + 2 by omega)
      (hmono.trans (Nat.le_of_not_lt hle))
    rw [hdouble, magnitude_limit] at hbound
    linarith

end

end Parameter

/-! ### Seeds and tables -/

namespace Family

theorem table_of_error {family : Family} (hfamily : family ≠ generic) {side : Float} {e : InvalidParameter}
    (h : Parameter.sideLength.checkLength side = .error e) : family.table side = .error (.invalid e) := by
  have hturtle : ∀ family angle shrink grow left right,
      turtleTable family side angle shrink grow left right = .error (.invalid e) := by
    intro family angle shrink grow left right
    rw [turtleTable, checkSide_of_error h]
    rfl
  cases family with
  | hilbert =>
      rw [table, hilbertTable, checkSide_of_error h]
      rfl
  | eCurve => exact hturtle ..
  | sierpinski => exact hturtle ..
  | zigzag => exact hturtle ..
  | generic => exact absurd rfl hfamily

theorem seedOps_ne_nil (family : Family) (side : Float) : family.seedOps side ≠ [] := by
  cases family <;> exact List.cons_ne_nil _ _

/-- All but the generic family have rules. -/
theorem exists_lookup_ruleOps {family : Family} (hfamily : family ≠ generic) (side : Float) :
    ∃ name ops, (family.ruleOps side).lookup name = some ops := by
  cases family with
  | hilbert => exact ⟨"A", _, rfl⟩
  | eCurve => exact ⟨"DL", _, rfl⟩
  | sierpinski => exact ⟨"DL", _, rfl⟩
  | zigzag => exact ⟨"DL", _, rfl⟩
  | generic => exact absurd rfl hfamily

end Family

/-! ### The generic family -/

namespace ESequenceShape

theorem validate_scaled (side : Float) :
    (scaled side).validate =
      (Parameter.majorLength.checkLength side >>= fun _ => Parameter.minorLength.checkLength (side / 2)) := by
  have hcounts : ¬(2 : UInt32) = 0 := by decide
  have hperRow : ¬((2 : UInt32) = 0 ∨ (2 : UInt32) % 2 ≠ 0) := by decide
  have hangle : checkAngle 90 = .ok () := checkAngle_ofNat (n := 90) (by decide) (by decide)
  unfold validate scaled
  simp only
  rw [if_neg hcounts, if_neg hperRow, if_neg hcounts, hangle]
  cases Parameter.majorLength.checkLength side with
  | error e => rfl
  | ok =>
      cases Parameter.minorLength.checkLength (side / 2) with
      | error e => rfl
      | ok => rfl

-- Two bends make the cross length four times the minor one, and that is half the side, rounded.
theorem crossLength_scaled (side : Float) : (scaled side).crossLength = 4 * (side / 2) := by
  have hfour : Float.ofNat 2 * 2 = 4 := @ofInt_mul 2 2 (by decide) (by decide) (by decide) (by decide)
  exact congrArg (· * (side / 2)) hfour

end ESequenceShape

namespace Family

theorem least_lt_one : (2 : ℚ) ^ (-1074 : Int) < 1 :=
  zpow_lt_one_of_neg₀ one_lt_two (by decide)

theorem generic_table_of_validate_error {side : Float} {e : InvalidParameter}
    (h : (ESequenceShape.scaled side).validate = .error e) : generic.table side = .error (.invalid e) :=
  genericTable_of_error (ESequenceShape.sequence_of_validate_error _ h _)

theorem generic_table_of_error {side : Float} {e : InvalidParameter}
    (h : Parameter.sideLength.checkLength side = .error e) : ∃ e', generic.table side = .error (.invalid e') := by
  obtain ⟨e', he'⟩ := Parameter.exists_checkLength_error h .majorLength
  refine ⟨e', generic_table_of_validate_error ?_⟩
  rw [ESequenceShape.validate_scaled, he']
  rfl

section

variable {side : Float} (h : Parameter.sideLength.checkLength side = .ok ())

include h

theorem toRat_side : toRat side = magnitude side :=
  toRat_of_nonneg (Parameter.checkLength_eq_ok_iff.mp h).1

theorem generic_table_of_least (hleast : toRat side ≤ 2 ^ (-1074 : Int)) :
    generic.table side = .error (.invalid ⟨.minorLength, .notPositive (side / 2)⟩) := by
  rw [toRat_side h] at hleast
  apply generic_table_of_validate_error
  rw [ESequenceShape.validate_scaled, Parameter.checkLength_congr h, Parameter.checkLength_half_of_least h _ hleast]
  rfl

theorem validate_scaled_of_ok (hlt : 2 ^ (-1074 : Int) < toRat side) :
    (ESequenceShape.scaled side).validate = .ok () := by
  rw [toRat_side h] at hlt
  rw [ESequenceShape.validate_scaled, Parameter.checkLength_congr h, Parameter.checkLength_half h _ hlt]
  rfl

theorem generic_table_of_long (hover : 5 * 10 ^ 14 < toRat side) :
    generic.table side = .error (.invalid ⟨.majorLength, .tooLong (4 * (side / 2))⟩) := by
  have hlt : 2 ^ (-1074 : Int) < toRat side := by linarith [least_lt_one]
  have hvalidate := validate_scaled_of_ok h hlt
  rw [toRat_side h] at hover
  apply genericTable_of_error
  apply ESequenceShape.sequence_of_cross_error hvalidate Jitter.fixed_one_mem
  rw [ESequenceShape.crossLength_scaled, Parameter.checkLength_four_halves_of_long h .majorLength hover]

theorem generic_table_of_ok (hlt : 2 ^ (-1074 : Int) < toRat side) (hle : toRat side ≤ 5 * 10 ^ 14) :
    ∃ table, generic.table side = .ok table ∧ 0 < table.size := by
  have hvalidate := validate_scaled_of_ok h hlt
  rw [toRat_side h] at hlt hle
  have hcross : Parameter.majorLength.checkLength (ESequenceShape.scaled side).crossLength = .ok () := by
    rw [ESequenceShape.crossLength_scaled, Parameter.checkLength_four_halves h .majorLength hlt hle]
  obtain ⟨ops, hsequence, -⟩ := ESequenceShape.sequence_of_cross_ok hvalidate Jitter.fixed_one_mem hcross
  obtain ⟨table, htable, hhas⟩ := genericTable_of_ok hsequence
  exact ⟨table, htable, NameMap.size_pos_of_get? (hhas.get? "D")⟩

end

/-- A side that does not pass its check is refused by every family. One that does gives each of them a seed, and all
but the generic one a table. The generic one has a table if the side is not the least double, half of which is no
length, and is at most half the limit; otherwise the half or the double is refused. -/
theorem build_outcome (family : Family) (side : Float) :
    (∀ e, Parameter.sideLength.checkLength side = .error e →
      family.seed side = .error (.invalid e) ∧ ∃ e', family.table side = .error (.invalid e')) ∧
    (Parameter.sideLength.checkLength side = .ok () →
      (∃ seed, family.seed side = .ok seed ∧ seed ≠ []) ∧
      ((family = generic → 2 ^ (-1074 : Int) < toRat side ∧ toRat side ≤ 5 * 10 ^ 14) →
        ∃ table, family.table side = .ok table ∧ 0 < table.size) ∧
      (family = generic → toRat side ≤ 2 ^ (-1074 : Int) →
        family.table side = .error (.invalid ⟨.minorLength, .notPositive (side / 2)⟩)) ∧
      (family = generic → 5 * 10 ^ 14 < toRat side →
        family.table side = .error (.invalid ⟨.majorLength, .tooLong (4 * (side / 2))⟩))) := by
  refine ⟨fun e h => ⟨seed_of_error family h, ?_⟩,
    fun h => ⟨⟨_, seed_eq h family, family.seedOps_ne_nil side⟩, ?_, ?_, ?_⟩⟩
  · by_cases hfamily : family = generic
    · exact hfamily ▸ generic_table_of_error h
    · exact ⟨e, table_of_error hfamily h⟩
  · intro hbounds
    by_cases hfamily : family = generic
    · obtain ⟨hlt, hle⟩ := hbounds hfamily
      exact hfamily ▸ generic_table_of_ok h hlt hle
    · obtain ⟨table, htable, hhas⟩ := table_eq h hfamily
      obtain ⟨name, ops, hlookup⟩ := exists_lookup_ruleOps hfamily side
      exact ⟨table, htable, NameMap.size_pos_of_get? ((hhas.get? name).trans hlookup)⟩
  · rintro rfl hleast
    exact generic_table_of_least h hleast
  · rintro rfl hover
    exact generic_table_of_long h hover

/-- The greatest length passes the check of the side, and the generic family refuses its double. -/
theorem table_fails_after_checkLength :
    Parameter.sideLength.checkLength 1e15 = .ok () ∧
      generic.table 1e15 = .error (.invalid ⟨.majorLength, .tooLong 2e15⟩) := by
  have hcheck : Parameter.sideLength.checkLength 1e15 = .ok () := by
    show Parameter.sideLength.checkLength Parameter.limit = .ok ()
    rw [Parameter.limit_eq]
    exact Parameter.sideLength.checkLength_ofNat (by norm_num) (le_refl _)
  have hover : 5 * 10 ^ 14 < toRat 1e15 := by
    rw [toRat_side hcheck]
    show _ < magnitude Parameter.limit
    rw [Parameter.magnitude_limit]
    norm_num
  have hdouble : (4 * (1e15 / 2) : Float) = 2e15 := eq_of_toBits (by decide +kernel)
  refine ⟨hcheck, ?_⟩
  rw [generic_table_of_long hcheck hover, hdouble]

/-- Half the limit still gives the generic family a table. -/
theorem build_outcome_half_limit :
    (∃ seed, generic.seed (Float.ofNat (5 * 10 ^ 14)) = .ok seed ∧ seed ≠ []) ∧
      ∃ table, generic.table (Float.ofNat (5 * 10 ^ 14)) = .ok table ∧ 0 < table.size := by
  have hcheck : Parameter.sideLength.checkLength (Float.ofNat (5 * 10 ^ 14)) = .ok () :=
    Parameter.sideLength.checkLength_ofNat (by norm_num) (by norm_num)
  have hvalue : toRat (Float.ofNat (5 * 10 ^ 14)) = 5 * 10 ^ 14 := by
    rw [toRat_side hcheck, magnitude_ofNat (by norm_num)]
    norm_num
  obtain ⟨hseed, htable, -⟩ := (build_outcome generic _).2 hcheck
  refine ⟨hseed, htable fun _ => ?_⟩
  rw [hvalue]
  exact ⟨by linarith [least_lt_one], le_refl _⟩

end Family

end TurtleChain
