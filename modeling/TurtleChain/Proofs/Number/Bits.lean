import Mathlib
import TurtleChain.Number.Binary64

/-! Doubles as words. A word is a sign bit and a magnitude, and for every double but the one not-a-number each
magnitude up to the infinities is that of one double of either sign. What a double is and how it compares with
zero and one can be read off its magnitude. -/

namespace TurtleChain.Binary64

open Float.Model Float.Model.UnpackedFloat

theorem toNat_unpackMantissa (b : BitVec 64) : (@unpackMantissa .binary64 b).toNat = b.toNat % 2 ^ 52 := by
  simp [unpackMantissa, BitVec.extractLsb]

theorem toNat_unpackExponent (b : BitVec 64) :
    (@unpackExponent .binary64 b).toNat = b.toNat / 2 ^ 52 % 2 ^ 11 := by
  simp [unpackExponent, BitVec.extractLsb, Nat.shiftRight_eq_div_pow]

theorem toNat_unpackSign (b : BitVec 64) : (@unpackSign .binary64 b).toNat = b.toNat / 2 ^ 63 := by
  have h := b.isLt
  simp [unpackSign, BitVec.extractLsb, Nat.shiftRight_eq_div_pow]
  omega

theorem toNat_packComponents (s : Sign) (e : BitVec 11) (m : BitVec 52) :
    (packComponents .binary64 s e m).toNat = s.toBitVec.toNat * 2 ^ 63 + e.toNat * 2 ^ 52 + m.toNat := by
  rw [packComponents, BitVec.toNat_append, BitVec.toNat_append, ← Nat.shiftLeft_add_eq_or_of_lt m.isLt,
    ← Nat.shiftLeft_add_eq_or_of_lt e.isLt, Nat.shiftLeft_eq, Nat.shiftLeft_eq]
  simp
  omega

theorem toBitVec_ofBitVec (v : BitVec 1) : (Sign.ofBitVec v).toBitVec = v := by
  revert v
  decide

theorem packComponents_unpack {b : BitVec 64} {e : BitVec 11} {m : BitVec 52}
    (he : @unpackExponent .binary64 b = e) (hm : @unpackMantissa .binary64 b = m) :
    packComponents .binary64 (Sign.ofBitVec (@unpackSign .binary64 b)) e m = b := by
  subst he hm
  apply BitVec.eq_of_toNat_eq
  rw [toNat_packComponents, toBitVec_ofBitVec, toNat_unpackSign, toNat_unpackExponent, toNat_unpackMantissa]
  have h := b.isLt
  omega

theorem exponentBias_eq : Format.binary64.exponentBias = 1023 := by
  decide

theorem mantissaBits_eq : Format.binary64.mantissaBits = 53 := by
  decide

theorem toNat_implicit_append (m : BitVec 52) : (1#1 ++ m).toNat = 2 ^ 52 + m.toNat := by
  rw [BitVec.toNat_append, ← Nat.shiftLeft_add_eq_or_of_lt m.isLt, Nat.shiftLeft_eq]
  simp

theorem pack_subnormal (s : Sign) (m : BitVec 52) (hm : 0 < m.toNat) {e : Int} (he : e = -1074) :
    UnpackedFloat.pack .binary64 (.finite s m.toNat e hm) = packComponents .binary64 s 0#11 m := by
  have hlog : m.toNat.log2 < 52 := (Nat.log2_lt (Nat.ne_of_gt hm)).mpr m.isLt
  unfold UnpackedFloat.pack
  simp only [exponentBias_eq, mantissaBits_eq, he]
  rw [if_neg (by decide), if_neg (by omega), BitVec.ofNat_toNat, BitVec.setWidth_eq]

theorem pack_normal (s : Sign) (k : BitVec 11) (m : BitVec 52) (hk : k.toNat + 1 < 2 ^ 11)
    (hpos : 0 < (1#1 ++ m).toNat) {e : Int} (he : e = k.toNat - 1075) :
    UnpackedFloat.pack .binary64 (.finite s (1#1 ++ m).toNat e hpos) = packComponents .binary64 s k m := by
  have hm := m.isLt
  have hlog : (1#1 ++ m).toNat.log2 = 52 := by
    rw [Nat.log2_eq_iff (Nat.ne_of_gt hpos), toNat_implicit_append]
    omega
  have hbiased : (e + (1023 : Nat) + (52 : Nat)).toNat = k.toNat := by omega
  have hmantissa : BitVec.ofNat 52 (1#1 ++ m).toNat = m := by
    apply BitVec.eq_of_toNat_eq
    rw [BitVec.toNat_ofNat, toNat_implicit_append]
    omega
  unfold UnpackedFloat.pack
  simp only [exponentBias_eq, mantissaBits_eq, hlog, hbiased]
  rw [if_neg (by omega), if_pos trivial, BitVec.ofNat_toNat, BitVec.setWidth_eq, hmantissa]

/-- Words that do not spell an odd not-a-number are kept. -/
theorem pack_unpack {b : BitVec 64} (h : Format.binary64.Valid b) :
    UnpackedFloat.pack .binary64 (UnpackedFloat.unpack .binary64 b) = b := by
  rw [UnpackedFloat.unpack]
  split
  · next he =>
      split
      · next hm => exact packComponents_unpack he hm
      · next hm => exact (h.eq_packedNaN he hm).symm
  · next hinf =>
      split
      · next he =>
          split
          · next hm => exact packComponents_unpack he hm
          · next hm =>
              refine (pack_subnormal _ (@unpackMantissa .binary64 b) _ ?_).trans (packComponents_unpack he rfl)
              rw [he, exponentBias_eq]
              rfl
      · next he =>
          refine (pack_normal _ (@unpackExponent .binary64 b) (@unpackMantissa .binary64 b) ?_ _ ?_).trans
            (packComponents_unpack rfl rfl)
          · have hlt : (@unpackExponent .binary64 b).toNat < 2 ^ 11 := (@unpackExponent .binary64 b).isLt
            have hne : (@unpackExponent .binary64 b).toNat ≠ 2 ^ 11 - 1 :=
              fun heq => hinf (BitVec.eq_of_toNat_eq heq)
            omega
          · rw [exponentBias_eq]
            rfl

/-! ### Doubles and their words -/

theorem toBits_ofBits {b : UInt64} (h : Format.binary64.Valid b.toBitVec) : (Float.ofBits b).toBits = b := by
  show UInt64.ofBitVec (UnpackedFloat.pack .binary64 (UnpackedFloat.unpack .binary64 b.toBitVec)) = b
  rw [pack_unpack h, UInt64.ofBitVec_toBitVec]

theorem eq_of_toBits {x y : Float} (h : x.toBits = y.toBits) : x = y := by
  cases x with
  | ofModel x =>
      cases y with
      | ofModel y =>
          cases x
          cases y
          cases h
          rfl

theorem valid_toBits (x : Float) : Format.binary64.Valid x.toBits.toBitVec :=
  x.toModel.valid

theorem ofBits_toBits (x : Float) : Float.ofBits x.toBits = x :=
  eq_of_toBits (toBits_ofBits (valid_toBits x))

theorem valid_of_le {b : BitVec 64} (h : b.toNat % 2 ^ 63 ≤ infinityBits) : Format.binary64.Valid b := by
  refine ⟨fun he hm => absurd ?_ hm⟩
  have hexponent : (@unpackExponent .binary64 b).toNat = 2 ^ 11 - 1 := by
    rw [he]
    rfl
  rw [toNat_unpackExponent] at hexponent
  apply BitVec.eq_of_toNat_eq
  rw [toNat_unpackMantissa]
  change b.toNat % 2 ^ 63 ≤ 2047 * 2 ^ 52 at h
  show b.toNat % 2 ^ 52 = 0
  omega

section

variable {bits : Nat} (h : bits ≤ infinityBits) (negative : Bool)

include h

theorem toNat_toBits_ofMagnitudeBits :
    (ofMagnitudeBits negative bits).toBits.toNat = if negative then 2 ^ 63 + bits else bits := by
  have hlt : bits < 2 ^ 63 := Nat.lt_of_le_of_lt h (by decide)
  have hword : (UInt64.ofNat (if negative then signBit + bits else bits)).toNat =
      if negative then 2 ^ 63 + bits else bits := by
    rw [UInt64.toNat_ofNat']
    change (if negative then 2 ^ 63 + bits else bits) % 2 ^ 64 = _
    split <;> omega
  rw [ofMagnitudeBits, toBits_ofBits, hword]
  apply valid_of_le
  change (UInt64.ofNat (if negative then signBit + bits else bits)).toNat % 2 ^ 63 ≤ infinityBits
  rw [hword]
  split <;> omega

theorem magnitudeBits_ofMagnitudeBits : magnitudeBits (ofMagnitudeBits negative bits) = bits := by
  have hlt : bits < 2 ^ 63 := Nat.lt_of_le_of_lt h (by decide)
  rw [magnitudeBits, toNat_toBits_ofMagnitudeBits h]
  change (if negative then 2 ^ 63 + bits else bits) % 2 ^ 63 = bits
  split <;> omega

theorem isNegative_ofMagnitudeBits : isNegative (ofMagnitudeBits negative bits) = negative := by
  have hlt : bits < 2 ^ 63 := Nat.lt_of_le_of_lt h (by decide)
  rw [isNegative, toNat_toBits_ofMagnitudeBits h]
  change decide (2 ^ 63 ≤ if negative then 2 ^ 63 + bits else bits) = negative
  cases negative
  · exact decide_eq_false (by simp; omega)
  · exact decide_eq_true (by simp)

end

theorem toNat_toBits (x : Float) :
    x.toBits.toNat = if isNegative x then 2 ^ 63 + magnitudeBits x else magnitudeBits x := by
  have hlt := x.toBits.toNat_lt
  rw [isNegative, magnitudeBits]
  change _ =
    if decide (2 ^ 63 ≤ x.toBits.toNat) = true then 2 ^ 63 + x.toBits.toNat % 2 ^ 63 else x.toBits.toNat % 2 ^ 63
  simp only [decide_eq_true_eq]
  split <;> omega

/-- A double is its sign and its magnitude. -/
theorem ofMagnitudeBits_isNegative (x : Float) : ofMagnitudeBits (isNegative x) (magnitudeBits x) = x := by
  have hword : UInt64.ofNat (if isNegative x then signBit + magnitudeBits x else magnitudeBits x) = x.toBits := by
    apply UInt64.toNat_inj.mp
    rw [UInt64.toNat_ofNat', toNat_toBits]
    change (if isNegative x then 2 ^ 63 + magnitudeBits x else magnitudeBits x) % 2 ^ 64 = _
    rw [← toNat_toBits]
    exact Nat.mod_eq_of_lt x.toBits.toNat_lt
  rw [ofMagnitudeBits, hword, ofBits_toBits]

/-! ### What a double is -/

theorem magnitudeBits_eq (x : Float) :
    magnitudeBits x = biasedExponent x * 2 ^ 52 + fraction x := by
  rw [Nat.mul_comm]
  exact (Nat.div_add_mod (magnitudeBits x) (2 ^ 52)).symm

theorem fraction_lt (x : Float) : fraction x < 2 ^ 52 :=
  Nat.mod_lt _ (by decide)

/-- The significand has all its bits, unless the scale is the least one. -/
theorem significand_cases (x : Float) :
    (biasedExponent x = 0 ∧ significand x = fraction x ∧ scale x = minScale) ∨
      (0 < biasedExponent x ∧ significand x = 2 ^ 52 + fraction x ∧
        scale x = biasedExponent x + minScale - 1) := by
  rw [significand, scale]
  by_cases hzero : biasedExponent x = 0
  · rw [if_pos hzero, if_pos hzero]
    exact Or.inl ⟨hzero, rfl, rfl⟩
  · rw [if_neg hzero, if_neg hzero]
    exact Or.inr ⟨Nat.pos_of_ne_zero hzero, rfl, rfl⟩

theorem significand_lt (x : Float) : significand x < 2 ^ 53 := by
  have hcases := significand_cases x
  have hfraction := fraction_lt x
  omega

def sign (x : Float) : Sign :=
  if isNegative x then .negative else .positive

section

variable (x : Float)

theorem unpack_eq : x.toModel.unpack = UnpackedFloat.unpack .binary64 x.toBits.toBitVec := rfl

theorem toNat_exponent : (@unpackExponent .binary64 x.toBits.toBitVec).toNat = biasedExponent x := by
  rw [toNat_unpackExponent, biasedExponent, magnitudeBits]
  change x.toBits.toNat / 2 ^ 52 % 2 ^ 11 = x.toBits.toNat % 2 ^ 63 / 2 ^ 52
  omega

theorem toNat_mantissa : (@unpackMantissa .binary64 x.toBits.toBitVec).toNat = fraction x := by
  rw [toNat_unpackMantissa, fraction, magnitudeBits]
  change x.toBits.toNat % 2 ^ 52 = x.toBits.toNat % 2 ^ 63 % 2 ^ 52
  omega

theorem ofBitVec_sign : Sign.ofBitVec (@unpackSign .binary64 x.toBits.toBitVec) = sign x := by
  have hbit : (@unpackSign .binary64 x.toBits.toBitVec = 0#1) ↔ isNegative x = false := by
    rw [← BitVec.toNat_inj, toNat_unpackSign, isNegative, decide_eq_false_iff_not]
    change x.toBits.toNat / 2 ^ 63 = 0 ↔ ¬2 ^ 63 ≤ x.toBits.toNat
    omega
  rw [Sign.ofBitVec, sign]
  cases hnegative : isNegative x with
  | true => rw [if_neg (by rw [hbit, hnegative]; simp), if_pos rfl]
  | false => rw [if_pos (hbit.mpr hnegative), if_neg Bool.false_ne_true]

end

section

variable {x : Float}

/-- From the infinities on, all bits of the exponent are set. -/
theorem exponent_eq (h : infinityBits ≤ magnitudeBits x) :
    @unpackExponent .binary64 x.toBits.toBitVec = -1#11 ∧
      magnitudeBits x = infinityBits + fraction x := by
  have hfraction := fraction_lt x
  have hlt : magnitudeBits x < 2 ^ 63 := Nat.mod_lt _ (by decide)
  have hbits := magnitudeBits_eq x
  have hinfinity : infinityBits = 2047 * 2 ^ 52 := by decide
  refine ⟨BitVec.eq_of_toNat_eq ?_, by omega⟩
  rw [toNat_exponent]
  show biasedExponent x = 2047
  omega

theorem unpack_infinity (h : magnitudeBits x = infinityBits) : x.toModel.unpack = .infinity (sign x) := by
  obtain ⟨hexponent, hbits⟩ := exponent_eq (Nat.le_of_eq h.symm)
  have hmantissa : @unpackMantissa .binary64 x.toBits.toBitVec = 0#52 := by
    apply BitVec.eq_of_toNat_eq
    rw [toNat_mantissa]
    show fraction x = 0
    omega
  rw [unpack_eq, UnpackedFloat.unpack, ofBitVec_sign]
  rw [if_pos hexponent, if_pos hmantissa]

theorem unpack_notANumber (h : infinityBits < magnitudeBits x) : x.toModel.unpack = .notANumber := by
  obtain ⟨hexponent, hbits⟩ := exponent_eq (Nat.le_of_lt h)
  have hmantissa : @unpackMantissa .binary64 x.toBits.toBitVec ≠ 0#52 := by
    intro hzero
    have hnat := congrArg BitVec.toNat hzero
    rw [toNat_mantissa] at hnat
    change fraction x = 0 at hnat
    omega
  rw [unpack_eq, UnpackedFloat.unpack]
  rw [if_pos hexponent, if_neg hmantissa]

theorem exponent_ne (h : magnitudeBits x < infinityBits) :
    @unpackExponent .binary64 x.toBits.toBitVec ≠ -1#11 := by
  intro heq
  have hnat := congrArg BitVec.toNat heq
  rw [toNat_exponent] at hnat
  change biasedExponent x = 2047 at hnat
  rw [magnitudeBits_eq, hnat] at h
  change 2047 * 2 ^ 52 + fraction x < 2047 * 2 ^ 52 at h
  omega

theorem unpack_zero (h : magnitudeBits x = 0) : x.toModel.unpack = .zero (sign x) := by
  have hbits := h
  rw [magnitudeBits_eq] at hbits
  have hexponent : @unpackExponent .binary64 x.toBits.toBitVec = 0#11 := by
    apply BitVec.eq_of_toNat_eq
    rw [toNat_exponent]
    show biasedExponent x = 0
    omega
  have hmantissa : @unpackMantissa .binary64 x.toBits.toBitVec = 0#52 := by
    apply BitVec.eq_of_toNat_eq
    rw [toNat_mantissa]
    show fraction x = 0
    omega
  rw [unpack_eq, UnpackedFloat.unpack, ofBitVec_sign]
  rw [if_neg (exponent_ne (by rw [h]; decide)), if_pos hexponent, dif_pos hmantissa]

theorem exists_finite_eq {s : Sign} {m m' : Nat} {e e' : Int} {h : 0 < m} (hm : m = m') (he : e = e') :
    ∃ h', UnpackedFloat.finite s m e h = .finite s m' e' h' := by
  subst hm he
  exact ⟨h, rfl⟩

theorem unpack_finite (hpos : 0 < magnitudeBits x) (hlt : magnitudeBits x < infinityBits) :
    ∃ h, x.toModel.unpack = .finite (sign x) (significand x) (scale x) h := by
  have hexponent := toNat_exponent x
  have hmantissa := toNat_mantissa x
  have hcases := significand_cases x
  have hleast : minScale = -1074 := rfl
  rw [magnitudeBits_eq] at hpos
  rw [unpack_eq, UnpackedFloat.unpack, ofBitVec_sign, if_neg (exponent_ne hlt)]
  by_cases hzero : @unpackExponent .binary64 x.toBits.toBitVec = 0#11
  · have hbiased : biasedExponent x = 0 := by
      rw [← hexponent, hzero]
      rfl
    have hne : @unpackMantissa .binary64 x.toBits.toBitVec ≠ 0#52 := by
      intro heq
      rw [heq] at hmantissa
      change 0 = fraction x at hmantissa
      omega
    rw [if_pos hzero, dif_neg hne]
    refine exists_finite_eq ?_ ?_
    · omega
    · rw [hexponent, exponentBias_eq, hbiased]
      change (0 : Int) - (1023 + 52) + 1 = scale x
      omega
  · have hbiased : biasedExponent x ≠ 0 := by
      intro heq
      rw [heq] at hexponent
      exact hzero (BitVec.eq_of_toNat_eq hexponent)
    rw [if_neg hzero]
    refine exists_finite_eq ?_ ?_
    · refine (toNat_implicit_append _).trans ?_
      rw [hmantissa]
      omega
    · rw [hexponent, exponentBias_eq]
      change (biasedExponent x : Int) - (1023 + 52) = scale x
      omega

/-- The kinds of doubles, by magnitude. -/
theorem unpack_cases (x : Float) :
    (magnitudeBits x = 0 ∧ x.toModel.unpack = .zero (sign x)) ∨
      (0 < magnitudeBits x ∧ magnitudeBits x < infinityBits ∧
        ∃ h, x.toModel.unpack = .finite (sign x) (significand x) (scale x) h) ∨
      (magnitudeBits x = infinityBits ∧ x.toModel.unpack = .infinity (sign x)) ∨
      (infinityBits < magnitudeBits x ∧ x.toModel.unpack = .notANumber) := by
  rcases Nat.eq_zero_or_pos (magnitudeBits x) with hzero | hpos
  · exact Or.inl ⟨hzero, unpack_zero hzero⟩
  · rcases Nat.lt_trichotomy (magnitudeBits x) infinityBits with hlt | heq | hgt
    · exact Or.inr (Or.inl ⟨hpos, hlt, unpack_finite hpos hlt⟩)
    · exact Or.inr (Or.inr (Or.inl ⟨heq, unpack_infinity heq⟩))
    · exact Or.inr (Or.inr (Or.inr ⟨hgt, unpack_notANumber hgt⟩))

theorem isFinite_iff : x.isFinite = true ↔ magnitudeBits x < infinityBits := by
  show x.toModel.unpack.isFinite = true ↔ _
  rcases unpack_cases x with ⟨hzero, hx⟩ | ⟨-, hlt, h, hx⟩ | ⟨heq, hx⟩ | ⟨hgt, hx⟩
  · rw [hx]
    exact iff_of_true rfl (by rw [hzero]; decide)
  · rw [hx]
    exact iff_of_true rfl hlt
  · rw [hx]
    exact iff_of_false Bool.false_ne_true (by omega)
  · rw [hx]
    exact iff_of_false Bool.false_ne_true (by omega)

theorem isNaN_eq_false (h : magnitudeBits x ≤ infinityBits) : x.isNaN = false := by
  show x.toModel.unpack.isNaN = false
  rcases unpack_cases x with ⟨-, hx⟩ | ⟨-, -, _, hx⟩ | ⟨-, hx⟩ | ⟨hgt, -⟩
  · rw [hx]
    rfl
  · rw [hx]
    rfl
  · rw [hx]
    rfl
  · omega

theorem beq_zero_iff : (x == 0) = true ↔ magnitudeBits x = 0 := by
  show (x.toModel.unpack.compare (0 : Float).toModel.unpack == some .eq) = true ↔ _
  rw [unpack_zero (show magnitudeBits (0 : Float) = 0 by decide)]
  rcases unpack_cases x with ⟨hzero, hx⟩ | ⟨hpos, -, h, hx⟩ | ⟨heq, hx⟩ | ⟨hgt, hx⟩
  · rw [hx]
    exact iff_of_true rfl hzero
  · rw [hx]
    refine iff_of_false ?_ (Nat.ne_of_gt hpos)
    cases sign x <;> exact Bool.false_ne_true
  · rw [hx]
    refine iff_of_false ?_ (by rw [heq]; decide)
    cases sign x <;> exact Bool.false_ne_true
  · rw [hx]
    exact iff_of_false Bool.false_ne_true (by omega)

/-- The word of one. -/
def oneBits : Nat := 1023 * 2 ^ 52

theorem lt_iff_compare (x y : Float) :
    x < y ↔ (x.toModel.unpack.compare y.toModel.unpack == some .lt) = true := by
  show decide (_ = true) = true ↔ _
  exact decide_eq_true_iff

theorem lt_zero_iff (h : x.isFinite = true) : x < 0 ↔ isNegative x = true ∧ 0 < magnitudeBits x := by
  rw [lt_iff_compare, unpack_zero (show magnitudeBits (0 : Float) = 0 by decide)]
  rcases Nat.eq_zero_or_pos (magnitudeBits x) with hzero | hpos
  · rw [unpack_zero hzero]
    exact iff_of_false Bool.false_ne_true (by omega)
  · obtain ⟨h, hunpack⟩ := unpack_finite hpos (isFinite_iff.mp h)
    rw [hunpack, sign]
    cases hnegative : isNegative x with
    | true => exact iff_of_true rfl ⟨rfl, hpos⟩
    | false => exact iff_of_false Bool.false_ne_true (by simp)

theorem neg_one_lt_iff (h : x.isFinite = true) (hnegative : isNegative x = true) :
    -1 < x ↔ magnitudeBits x < oneBits := by
  obtain ⟨hone, hunpack⟩ := unpack_finite (show 0 < magnitudeBits (-1 : Float) by decide) (by decide)
  have hnegative' : isNegative (-1 : Float) = true := by decide
  have hsignificand : significand (-1 : Float) = 2 ^ 52 := by decide
  have hscale : scale (-1 : Float) = -52 := by decide
  rw [lt_iff_compare, hunpack, sign, if_pos hnegative']
  rcases Nat.eq_zero_or_pos (magnitudeBits x) with hzero | hpos
  · rw [unpack_zero hzero, hzero]
    exact iff_of_true rfl (by decide)
  · obtain ⟨h, hunpack⟩ := unpack_finite hpos (isFinite_iff.mp h)
    have hbits := magnitudeBits_eq x
    have hfraction := fraction_lt x
    have hcases := significand_cases x
    have hleast : minScale = -1074 := rfl
    rw [hunpack, sign, if_pos hnegative]
    show (some ((compare (scale (-1)) (scale x)).then (compare (significand (-1)) (significand x))).swap ==
      some .lt) = true ↔ magnitudeBits x < 1023 * 2 ^ 52
    rw [hsignificand, hscale]
    rcases Int.lt_trichotomy (-52) (scale x) with hlt | heq | hgt
    · rw [Std.compare_eq_lt.mpr hlt]
      exact iff_of_false Bool.false_ne_true (by omega)
    · rw [← heq, Std.compare_self]
      refine iff_of_false ?_ (by omega)
      have hle : 2 ^ 52 ≤ significand x := by omega
      rcases Nat.eq_or_lt_of_le hle with heq | hlt
      · rw [← heq, Std.compare_self]
        exact Bool.false_ne_true
      · rw [Std.compare_eq_lt.mpr hlt]
        exact Bool.false_ne_true
    · rw [Std.compare_eq_gt.mpr hgt]
      exact iff_of_true rfl (by omega)

end

end TurtleChain.Binary64
