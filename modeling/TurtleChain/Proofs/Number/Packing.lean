import TurtleChain.Proofs.Number.Value

/-! How the arithmetic on doubles rounds. The built-in operations keep two bits of what they shift out of a
mantissa, and may shift once more behind a carry; the word that comes out is that of the double nearest to the
exact number. -/

namespace TurtleChain.Binary64

open Float.Model Float.Model.UnpackedFloat

/-! ### Bits that are shifted out -/

/-- A mantissa that holds the whole part of a quotient: what is left of it is kept as one bit for a half and one for
what is neither nothing nor a half. -/
structure WholePart (num den : Nat) (em : ExtendedMantissa) : Prop where
  mantissa : em.mantissa = num / den
  roundBit : em.roundBit = true ↔ den ≤ 2 * (num % den)
  stickyBit : em.stickyBit = true ↔ 2 * (num % den) ≠ 0 ∧ 2 * (num % den) ≠ den

theorem wholePart_ofFraction (num : Nat) {den : Nat} (hden : 0 < den) :
    WholePart num den (.ofMantissaAndAccuracy (num / den) (accuracyOfFraction (num % den) den)) := by
  unfold accuracyOfFraction
  split
  · next hzero => refine ⟨rfl, ?_, ?_⟩ <;> simp [ExtendedMantissa.ofMantissaAndAccuracy, hzero, hden.ne']
  · next hpos =>
      rcases Nat.lt_trichotomy (2 * (num % den)) den with h | h | h
      · rw [Nat.compare_eq_lt.mpr h]
        refine ⟨rfl, ?_, ?_⟩ <;> simp [ExtendedMantissa.ofMantissaAndAccuracy] <;> omega
      · rw [Nat.compare_eq_eq.mpr h]
        refine ⟨rfl, ?_, ?_⟩ <;> simp [ExtendedMantissa.ofMantissaAndAccuracy] <;> omega
      · rw [Nat.compare_eq_gt.mpr h]
        refine ⟨rfl, ?_, ?_⟩ <;> simp [ExtendedMantissa.ofMantissaAndAccuracy] <;> omega

section

variable {num den : Nat} (hden : 0 < den) {em : ExtendedMantissa} (h : WholePart num den em)

include hden h

theorem WholePart.shiftRightOne : WholePart num (den * 2) em.shiftRightOne := by
  have hrest := Nat.mod_lt num hden
  have hsplit : num % (den * 2) = num % den + den * (num / den % 2) := Nat.mod_mul
  have hbit : num / den % 2 = 0 ∨ num / den % 2 = 1 := by omega
  refine ⟨?_, ?_, ?_⟩
  · rw [ExtendedMantissa.shiftRightOne, h.mantissa, Nat.div_div_eq_div_mul]
  · rw [ExtendedMantissa.shiftRightOne, h.mantissa, hsplit]
    rcases hbit with hbit | hbit
    · simp [hbit]
      omega
    · simp [hbit]
      omega
  · rw [ExtendedMantissa.shiftRightOne, Bool.or_eq_true, h.roundBit, h.stickyBit, hsplit]
    rcases hbit with hbit | hbit
    · rw [hbit]
      omega
    · rw [hbit]
      omega

theorem WholePart.shiftRight (n : Nat) : WholePart num (den * 2 ^ n) (em >>> n) := by
  induction n with
  | zero =>
      rw [pow_zero, Nat.mul_one]
      exact h
  | succ n ih =>
      rw [pow_succ, ← Nat.mul_assoc]
      exact ih.shiftRightOne (by positivity)

theorem WholePart.roundedMantissa : em.roundedMantissa = roundQuotient num den := by
  obtain ⟨hmantissa, hround, hsticky⟩ := h
  obtain ⟨mantissa, round, sticky⟩ := em
  simp only at hmantissa hround hsticky
  rw [roundQuotient, ← hmantissa]
  cases round with
  | false =>
      have hlt : 2 * (num % den) < den := by simpa using hround
      rw [Nat.compare_eq_lt.mpr hlt]
      cases sticky <;> rfl
  | true =>
      have hle : den ≤ 2 * (num % den) := hround.mp rfl
      cases sticky with
      | false =>
          have heq : 2 * (num % den) = den := by
            simp at hsticky
            omega
          rw [Nat.compare_eq_eq.mpr heq]
          show mantissa + mantissa % 2 = if mantissa % 2 = 0 then mantissa else mantissa + 1
          split <;> omega
      | true =>
          have hgt : den < 2 * (num % den) := lt_of_le_of_ne hle (hsticky.mp rfl).2.symm
          rw [Nat.compare_eq_gt.mpr hgt]
          rfl

end

/-! ### Rounding -/

/-- The scale of the last bit that is kept of `m * 2 ^ e`. -/
def keptScale (m : Nat) (e : Int) : Int :=
  max minScale (m.log2 + e - 52)

theorem targetExponent_eq (m : Nat) (e : Int) :
    Format.binary64.targetExponent (totalExponent m e) = keptScale m e := by
  show max ((m.log2 : Int) + 1 + e - (53 : Nat)) (-1074) = max (-1074) (m.log2 + e - 52)
  omega

theorem shiftToTargetExponent_eq (m : Nat) (e : Int) (accuracy : Accuracy) :
    shiftToTargetExponent .binary64 m e accuracy =
      (ExtendedMantissa.ofMantissaAndAccuracy m accuracy >>> (keptScale m e - e).toNat,
        e + (keptScale m e - e).toNat) := by
  rw [shiftToTargetExponent, targetExponent_eq]
  rfl

/-- Nothing is shifted out of a mantissa that fits. -/
theorem shiftToTargetExponent_of_lt {m : Nat} {e : Int} (hm : m < 2 ^ 53) (he : minScale ≤ e) :
    shiftToTargetExponent .binary64 m e .exact = (⟨m, false, false⟩, e) := by
  have hlog : m.log2 < 53 := by
    rcases Nat.eq_zero_or_pos m with rfl | hpos
    · decide
    · exact (Nat.log2_lt hpos.ne').mpr hm
  have hkept : (keptScale m e - e).toNat = 0 := by
    unfold keptScale
    omega
  rw [shiftToTargetExponent_eq, hkept]
  simp only [Int.ofNat_zero, Int.add_zero]
  rfl

/-- A full mantissa whose exponent is too large becomes infinite. -/
theorem pack_huge (s : Sign) (v : BitVec 52) {e : Int} (he : 2048 ≤ e + 1076) (hpos : 0 < (1#1 ++ v).toNat) :
    UnpackedFloat.pack .binary64 (.finite s (1#1 ++ v).toNat e hpos) = packComponents .binary64 s (-1#11) 0 := by
  have hbiased : 2 ^ 11 ≤ (e + (1023 : Nat) + (52 : Nat)).toNat + 1 := by omega
  unfold UnpackedFloat.pack
  simp only [exponentBias_eq]
  rw [if_pos hbiased]
  rfl

theorem toNat_pack_subnormal {s : Sign} {m : Nat} (hm : m < 2 ^ 52) (hpos : 0 < m) :
    (UnpackedFloat.pack .binary64 (.finite s m minScale hpos)).toNat = s.toBitVec.toNat * 2 ^ 63 + m := by
  obtain ⟨v, rfl⟩ : ∃ v : BitVec 52, v.toNat = m :=
    ⟨BitVec.ofNat 52 m, by rw [BitVec.toNat_ofNat, Nat.mod_eq_of_lt hm]⟩
  rw [pack_subnormal s v hpos (show minScale = -1074 from rfl), toNat_packComponents]
  have hzero : (0#11).toNat = 0 := rfl
  omega

theorem toNat_pack_full {s : Sign} {m : Nat} {e : Int} (hm : m < 2 ^ 53) (hfull : 2 ^ 52 ≤ m) (he : minScale ≤ e)
    (hpos : 0 < m) :
    (UnpackedFloat.pack .binary64 (.finite s m e hpos)).toNat =
      s.toBitVec.toNat * 2 ^ 63 + min infinityBits ((e - minScale).toNat * 2 ^ 52 + m) := by
  have hleast : minScale = -1074 := rfl
  have hinfinity : infinityBits = 2047 * 2 ^ 52 := rfl
  rw [hleast] at he ⊢
  rw [hinfinity]
  obtain ⟨v, rfl⟩ : ∃ v : BitVec 52, (1#1 ++ v).toNat = m := by
    refine ⟨BitVec.ofNat 52 (m - 2 ^ 52), ?_⟩
    rw [toNat_implicit_append, BitVec.toNat_ofNat, Nat.mod_eq_of_lt (by omega)]
    omega
  rcases lt_or_ge (e + 1076) 2048 with hfits | hhuge
  · obtain ⟨k, hk⟩ : ∃ k : BitVec 11, (k.toNat : Int) = e + 1075 := by
      refine ⟨BitVec.ofNat 11 (e + 1075).toNat, ?_⟩
      rw [BitVec.toNat_ofNat, Nat.mod_eq_of_lt (by omega)]
      omega
    rw [pack_normal s k v (by omega) hpos (by omega), toNat_packComponents, toNat_implicit_append]
    have hv := v.isLt
    omega
  · rw [pack_huge s v hhuge hpos, toNat_packComponents]
    have hones : (-1#11).toNat = 2047 := rfl
    have hzero : (0 : BitVec 52).toNat = 0 := rfl
    omega

theorem toNat_pack_finite {s : Sign} {m : Nat} {e : Int} (hm : m < 2 ^ 53) (he : minScale ≤ e)
    (hfull : minScale < e → 2 ^ 52 ≤ m) (hpos : 0 < m) :
    (UnpackedFloat.pack .binary64 (.finite s m e hpos)).toNat =
      s.toBitVec.toNat * 2 ^ 63 + min infinityBits ((e - minScale).toNat * 2 ^ 52 + m) := by
  rcases Nat.lt_or_ge m (2 ^ 52) with hlt | hge
  · obtain rfl : e = minScale := by omega
    have hinfinity : infinityBits = 2047 * 2 ^ 52 := rfl
    rw [toNat_pack_subnormal hlt hpos]
    omega
  · exact toNat_pack_full hm hge he hpos

section

variable {num den : Nat} {e : Int} (hnum : 0 < num) (hden : 0 < den) (h : e ≤ keptScale (num / den) e)

include hnum hden h

theorem unitScale_eq_keptScale : unitScale (num / den * 2 ^ e) = keptScale (num / den) e := by
  have hfloor : ⌊(num / den : ℚ)⌋₊ = num / den := Nat.floor_div_eq_div num den
  have hquotient : (0 : ℚ) < num / den := quotient_pos hnum hden
  rcases Nat.eq_zero_or_pos (num / den) with hzero | hwhole
  · -- The whole part is nothing, which is only left of numbers below the least scale.
    have hlt : (num / den : ℚ) < 2 ^ (0 : Int) := by
      rw [zpow_zero]
      exact Nat.floor_eq_zero.mp (hfloor.trans hzero)
    have hlog := (Int.lt_zpow_iff_log_lt one_lt_two hquotient).mp hlt
    have hlog2 : Nat.log2 0 = 0 := rfl
    rw [unitScale, log_mul_zpow hquotient, hzero]
    unfold fractionBits
    unfold keptScale at h ⊢
    rw [hzero] at h
    omega
  · have hone : (1 : ℚ) ≤ num / den := Nat.one_le_floor_iff _ |>.mp (hfloor ▸ hwhole)
    rw [unitScale, log_mul_zpow hquotient, Int.log_of_one_le_right 2 hone, hfloor, ← Nat.log2_eq_log_two, keptScale,
      fractionBits, Nat.cast_ofNat]

end

/-- A rounded mantissa as a number. It may have carried into a bit more than it has room for. -/
def carried (s : Sign) (r : Nat) (k : Int) : UnpackedFloat :=
  if h : (shiftToTargetExponent .binary64 r k .exact).1.mantissa = 0 then .zero s
  else .finite s (shiftToTargetExponent .binary64 r k .exact).1.mantissa
    (shiftToTargetExponent .binary64 r k .exact).2 (Nat.pos_of_ne_zero h)

theorem carried_of_shift {s : Sign} {r m : Nat} {k e : Int} {round sticky : Bool} (hm : 0 < m)
    (h : shiftToTargetExponent .binary64 r k .exact = (⟨m, round, sticky⟩, e)) : carried s r k = .finite s m e hm := by
  unfold carried
  simp only [h]
  rw [dif_neg hm.ne']

theorem toNat_pack_zero (s : Sign) : (UnpackedFloat.pack .binary64 (.zero s)).toNat = s.toBitVec.toNat * 2 ^ 63 := by
  cases s <;> rfl

theorem toNat_pack_carried (s : Sign) {r : Nat} {k : Int} (hk : minScale ≤ k) (hr : r ≤ 2 ^ 53)
    (hfull : minScale < k → 2 ^ 52 ≤ r) :
    (UnpackedFloat.pack .binary64 (carried s r k)).toNat =
      s.toBitVec.toNat * 2 ^ 63 + min infinityBits ((k - minScale).toNat * 2 ^ 52 + r) := by
  rcases Nat.lt_or_eq_of_le hr with hlt | rfl
  · rcases Nat.eq_zero_or_pos r with rfl | hpos
    · have hleast : k = minScale := by omega
      have hzero : carried s 0 k = .zero s := by
        unfold carried
        simp only [shiftToTargetExponent_of_lt hlt hk]
        rw [dif_pos trivial]
      rw [hzero, toNat_pack_zero, hleast, Int.sub_self, Int.toNat_zero, Nat.zero_mul, Nat.add_zero, Nat.min_zero,
        Nat.add_zero]
    · rw [carried_of_shift hpos (shiftToTargetExponent_of_lt hlt hk)]
      exact toNat_pack_finite hlt hk hfull hpos
  · have hkept : keptScale (2 ^ 53) k = k + 1 := by
      unfold keptScale
      rw [Nat.log2_two_pow]
      omega
    have hshift : shiftToTargetExponent .binary64 (2 ^ 53) k .exact = (⟨2 ^ 52, false, false⟩, k + 1) := by
      rw [shiftToTargetExponent_eq, hkept, show (k + 1 - k).toNat = 1 by omega]
      rfl
    have hpos : 0 < 2 ^ 52 := by positivity
    rw [carried_of_shift hpos hshift, toNat_pack_finite (by decide) (by omega) (fun _ => Nat.le_refl _)]
    omega

/-- The word that a finite number is rounded to, given by its whole part and how that relates to it. -/
theorem toNat_pack_roundQuotient (s : Sign) {num den : Nat} (hnum : 0 < num) (hden : 0 < den) {e : Int}
    (h : e ≤ keptScale (num / den) e) :
    (UnpackedFloat.pack .binary64
        (roundWithAccuracy .binary64 s (num / den) e (accuracyOfFraction (num % den) den))).toNat =
      s.toBitVec.toNat * 2 ^ 63 + roundedBits (num / den * 2 ^ e) := by
  have hunit := unitScale_eq_keptScale hnum hden h
  have hlast := lastScale_eq_unitScale (e := e) hnum hden
  have hscaled := rounded_eq_roundQuotient hnum hden (hunit ▸ h)
  have hbits := roundedBits_quotient_mul_zpow hnum hden (hunit ▸ h)
  have hscale : e + (keptScale (num / den) e - e).toNat = keptScale (num / den) e := by omega
  have hnum' : 0 < num * 2 ^ e.toNat := by positivity
  have hden' : 0 < den * 2 ^ (-e).toNat := by positivity
  have hle := rounded_le hnum' hden'
  have hge := le_rounded hnum' hden'
  have hcarried : roundWithAccuracy .binary64 s (num / den) e (accuracyOfFraction (num % den) den) =
      carried s (roundQuotient num (den * 2 ^ (keptScale (num / den) e - e).toNat)) (keptScale (num / den) e) := by
    have hshifted := (wholePart_ofFraction num hden).shiftRight hden (keptScale (num / den) e - e).toNat
    have hmantissa := hshifted.roundedMantissa (by positivity)
    rw [roundWithAccuracy, shiftToTargetExponent_eq, hscale]
    simp only [hmantissa]
    rfl
  rw [hlast] at hge
  rw [hscaled] at hle hge
  rw [hunit] at hle hge hbits
  rw [hcarried, hbits]
  exact toNat_pack_carried s (le_max_left _ _) hle hge

theorem toNat_pack_roundWithAccuracy (s : Sign) {m : Nat} (hm : 0 < m) {e : Int} (h : e ≤ keptScale m e) :
    (UnpackedFloat.pack .binary64 (roundWithAccuracy .binary64 s m e .exact)).toNat =
      s.toBitVec.toNat * 2 ^ 63 + roundedBits (m * 2 ^ e) := by
  have hexact : accuracyOfFraction (m % 1) 1 = .exact := by
    rw [Nat.mod_one]
    rfl
  have hbits := toNat_pack_roundQuotient s hm Nat.one_pos (e := e)
  rw [Nat.div_one, hexact, Nat.cast_one, div_one] at hbits
  exact hbits h

/-- Zeros put behind a mantissa change nothing. -/
theorem decreaseExponent_value (m : Nat) (e t : Int) :
    ((decreaseExponent m e t).1 : ℚ) * 2 ^ (decreaseExponent m e t).2 = m * 2 ^ e := by
  show ((m <<< (e - t).toNat : Nat) : ℚ) * 2 ^ (e - (e - t).toNat : Int) = m * 2 ^ e
  rw [Nat.shiftLeft_eq, Nat.cast_mul, Nat.cast_pow, Nat.cast_ofNat, mul_assoc, ← zpow_natCast,
    ← zpow_add₀ two_ne_zero]
  congr 2
  omega

theorem toNat_pack_round (s : Sign) {m : Nat} (hm : 0 < m) (e : Int) :
    (UnpackedFloat.pack .binary64 (UnpackedFloat.round .binary64 s m e)).toNat =
      s.toBitVec.toNat * 2 ^ 63 + roundedBits (m * 2 ^ e) := by
  have hround : UnpackedFloat.round .binary64 s m e =
      roundWithAccuracy .binary64 s (decreaseExponent m e (keptScale m e)).1
        (decreaseExponent m e (keptScale m e)).2 .exact := by
    rw [UnpackedFloat.round, targetExponent_eq]
  have hpos : 0 < m * 2 ^ (e - keptScale m e).toNat := by positivity
  have hlog := log2_mul_two_pow hm (e - keptScale m e).toNat
  have hfits : (decreaseExponent m e (keptScale m e)).2 ≤
      keptScale (decreaseExponent m e (keptScale m e)).1 (decreaseExponent m e (keptScale m e)).2 := by
    show e - (e - keptScale m e).toNat ≤
      max minScale ((m <<< (e - keptScale m e).toNat).log2 + (e - (e - keptScale m e).toNat) - 52)
    have hkept : keptScale m e = max minScale (m.log2 + e - 52) := rfl
    rw [Nat.shiftLeft_eq, hlog]
    omega
  have hshifted : 0 < (decreaseExponent m e (keptScale m e)).1 := by
    show 0 < m <<< (e - keptScale m e).toNat
    rwa [Nat.shiftLeft_eq]
  rw [hround, toNat_pack_roundWithAccuracy s hshifted hfits, decreaseExponent_value]

/-! ### Words and doubles -/

theorem ofModel_pack_eq {u : UnpackedFloat} {negative : Bool} {bits : Nat} (hbits : bits ≤ infinityBits)
    (h : (UnpackedFloat.pack .binary64 u).toNat = negative.toNat * 2 ^ 63 + bits) :
    Float.ofModel (Float.Model.pack u) = ofMagnitudeBits negative bits := by
  apply eq_of_toBits
  apply UInt64.toNat_inj.mp
  rw [toNat_toBits_ofMagnitudeBits hbits]
  refine Eq.trans (show _ = (UnpackedFloat.pack .binary64 u).toNat from rfl) (h.trans ?_)
  cases negative <;> simp

end TurtleChain.Binary64
