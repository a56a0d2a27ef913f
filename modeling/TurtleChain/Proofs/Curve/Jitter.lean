import TurtleChain.ESequence.Jitter
import TurtleChain.Proofs.Curve.Parameter

/-! The multipliers of the jitter. Whatever random words they are drawn from, they are 0.8, 0.9 and 1; and a length that
passes its check still does when it is multiplied by one of them. -/

namespace TurtleChain

open Binary64

namespace Jitter

/-- The multipliers that occur. -/
def multipliers : List Float :=
  [0.8, 0.9, 1]

/-! ### Drawing -/

section

variable {x : Float} {m : Nat} {e : Int}

/-- A rational of 53 bits and of at most two is the value of the double nearest to it. -/
theorem exact_of_le_two (hm : m < 2 ^ 53) (he : minScale ≤ e) (htwo : (m : ℚ) * 2 ^ e ≤ 2) (negative : Bool) :
    magnitude (ofMagnitudeBits negative (roundedBits (m * 2 ^ e))) = m * 2 ^ e ∧
      (ofMagnitudeBits negative (roundedBits (m * 2 ^ e))).isFinite = true := by
  have hbits := magnitudeBits_ofMagnitudeBits (roundedBits_le ((m : ℚ) * 2 ^ e)) negative
  have hfinite : roundedBits (m * 2 ^ e) < infinityBits := by
    have htop : roundedBits (2 : Nat) < infinityBits := roundedBits_natCast_lt (by decide)
    exact (roundedBits_mono (by positivity) (by exact_mod_cast htwo)).trans_lt htop
  exact ⟨magnitude_of_bits_eq hm he hfinite hbits, isFinite_iff.mpr (hbits.trans_lt hfinite)⟩

end

/-- What is drawn is a number of 53 bits behind the point. -/
theorem unitInterval_eq (word : UInt64) :
    ∃ k < 2 ^ 53, unitInterval word = ofMagnitudeBits false (roundedBits ((k : Nat) * 2 ^ (-53 : Int))) := by
  refine ⟨(word >>> 11).toNat, ?_, ?_⟩
  · have hword := word.toNat_lt
    rw [UInt64.toNat_shiftRight, Nat.shiftRight_eq_div_pow]
    exact Nat.div_lt_of_lt_mul hword
  · have hquotient : (((word >>> 11).toNat : Nat) : ℚ) / (Nat.pow 2 53 : Nat) =
        (word >>> 11).toNat * 2 ^ (-53 : Int) := by
      rw [zpow_neg, ← div_eq_mul_inv]
      norm_num
    rw [unitInterval, nearest, nearestBits_eq_roundedBits _ (show 0 < Nat.pow 2 53 by decide), hquotient]

/-- Twice the number that is drawn is exact, and below two. -/
theorem two_mul_unitInterval (word : UInt64) :
    isNegative (2 * unitInterval word) = false ∧ magnitude (2 * unitInterval word) < 2 := by
  obtain ⟨k, hk, hunit⟩ := unitInterval_eq word
  have hbelow : (k : ℚ) * 2 ^ (-53 : Int) < 1 := by
    rw [zpow_neg, ← div_eq_mul_inv, div_lt_one (by positivity)]
    exact_mod_cast hk
  have hdouble : 2 * ((k : ℚ) * 2 ^ (-53 : Int)) = k * 2 ^ (-52 : Int) := by
    norm_num
    ring
  obtain ⟨hvalue, hfinite⟩ := exact_of_le_two hk (show minScale ≤ -53 by decide) (by linarith) false
  obtain ⟨hexact, -⟩ := exact_of_le_two hk (show minScale ≤ -52 by decide) (by linarith) false
  have htwo : magnitude 2 = 2 := magnitude_ofNat (n := 2) (by decide)
  have htwoFinite : (2 : Float).isFinite = true := by decide
  have htwoSign : isNegative 2 = false := by decide
  have hmul := mul_eq htwoFinite (hunit ▸ hfinite)
  rw [htwo, htwoSign, hunit, isNegative_ofMagnitudeBits (roundedBits_le _), hvalue, hdouble, ← hunit] at hmul
  rw [hmul]
  refine ⟨isNegative_ofMagnitudeBits (roundedBits_le _) false, hexact.trans_lt ?_⟩
  linarith

theorem roundToInt_unitInterval (word : UInt64) :
    roundToInt (2 * unitInterval word) = 0 ∨ roundToInt (2 * unitInterval word) = 1 ∨
      roundToInt (2 * unitInterval word) = 2 := by
  obtain ⟨hsign, hbelow⟩ := two_mul_unitInterval word
  have hround : roundMagnitude (2 * unitInterval word) < 3 := by
    have hnonneg := magnitude_nonneg (2 * unitInterval word)
    rw [roundMagnitude_eq, Nat.floor_lt (by linarith)]
    push_cast
    linarith
  rw [roundToInt, hsign, if_neg Bool.false_ne_true]
  omega

theorem drawn_mem (word : UInt64) : drawn word ∈ multipliers := by
  have hleast : (8 + Float.ofInt 0) / 10 = 0.8 := eq_of_toBits (by decide +kernel)
  have hmiddle : (8 + Float.ofInt 1) / 10 = 0.9 := eq_of_toBits (by decide +kernel)
  have hgreatest : (8 + Float.ofInt 2) / 10 = 1 := eq_of_toBits (by decide +kernel)
  unfold drawn
  rcases roundToInt_unitInterval word with h | h | h
  · rw [h, hleast]
    simp [multipliers]
  · rw [h, hmiddle]
    simp [multipliers]
  · rw [h, hgreatest]
    simp [multipliers]

theorem seededBy_mem (random : RandomWords) (seed : UInt64) (n : Nat) : seededBy random seed n ∈ multipliers :=
  drawn_mem (random seed n)

theorem fixed_one_mem (n : Nat) : fixed 1 n ∈ multipliers := by
  simp [fixed, multipliers]

/-! ### Lengths -/

/-- A multiplier is positive, and one at most. -/
theorem multipliers_bounds {m : Float} (hm : m ∈ multipliers) :
    m.isFinite = true ∧ isNegative m = false ∧ 3 / 4 ≤ magnitude m ∧ magnitude m ≤ 1 := by
  have hbits : ∀ m ∈ multipliers, isNegative m = false ∧
      magnitudeBits 0.75 ≤ magnitudeBits m ∧ magnitudeBits m ≤ oneBits := by
    decide +kernel
  obtain ⟨hsign, hlow, hhigh⟩ := hbits m hm
  have honeBits : oneBits < infinityBits := by decide
  have hfinite : magnitudeBits m < infinityBits := hhigh.trans_lt honeBits
  have hone : magnitudeBits 1 = oneBits := by decide
  have hvalue : magnitude 0.75 = 3 / 4 := by
    have hsignificand : significand 0.75 = 3 * 2 ^ 51 := by decide +kernel
    have hscale : scale 0.75 = -53 := by decide +kernel
    rw [magnitude, hsignificand, hscale]
    norm_num
  refine ⟨isFinite_iff.mpr hfinite, hsign, ?_, ?_⟩
  · rw [← hvalue]
    exact (magnitude_le_iff (by decide +kernel) hfinite).mpr hlow
  · rw [← magnitude_eq_one hone]
    exact (magnitude_le_iff hfinite (hone.trans_lt honeBits)).mpr (hhigh.trans_eq hone.symm)

/-- A length that passes still does when it is multiplied. -/
theorem checkLength_mul {m x : Float} (hm : m ∈ multipliers) {parameter : Parameter}
    (h : parameter.checkLength x = .ok ()) : parameter.checkLength (m * x) = .ok () := by
  obtain ⟨hfinite, hsign, hlow, hhigh⟩ := multipliers_bounds hm
  obtain ⟨hnegative, hpos, hle⟩ := Parameter.checkLength_eq_ok_iff.mp h
  have hx := Parameter.isFinite_of_le_limit hle
  have hbelow := isFinite_iff.mp hx
  have hnonneg := magnitude_nonneg x
  rw [Parameter.checkLength_eq_ok_iff, mul_eq hfinite hx, isNegative_ofMagnitudeBits (roundedBits_le _),
    magnitudeBits_ofMagnitudeBits (roundedBits_le _), hsign, hnegative]
  refine ⟨rfl, ?_, ?_⟩
  · obtain ⟨-, hthree, -⟩ := roundedBits_near_least
    refine hthree.trans_le (roundedBits_mono (by positivity) ?_)
    exact mul_le_mul hlow (least_le_magnitude hpos hbelow) (by positivity) (by linarith)
  · refine le_trans ?_ hle
    rw [← roundedBits_magnitude hbelow]
    refine roundedBits_mono (mul_nonneg (by linarith) hnonneg) ?_
    exact mul_le_of_le_one_left hnonneg hhigh

end Jitter

end TurtleChain
