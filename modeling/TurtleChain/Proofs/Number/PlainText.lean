import TurtleChain.Number.Style
import TurtleChain.Proofs.Number.ReadBack
import TurtleChain.Proofs.Number.Spelling

/-! The positional text of a decimal. Its digits in front of the point start with none that is a zero, unless
the number is below one, and with the digits behind the point they spell the value of the decimal. -/

namespace TurtleChain

open Grammar

theorem toList_toString_nat (n : Nat) : (toString n).toList = Nat.toDigits 10 n :=
  Nat.toList_repr

theorem digits_toDigits (n : Nat) : Digits (Nat.toDigits 10 n) :=
  ⟨Nat.toDigits_ne_nil, fun _ hc => Nat.isDigit_of_mem_toDigits (by decide) (by decide) hc⟩

theorem leading_toDigits {n : Nat} (h : 0 < n) : Leading (Nat.toDigits 10 n) := by
  induction n using Nat.strongRecOn with
  | ind n ih =>
      rw [Nat.toDigits_eq_if (by decide)]
      split
      · next hlt =>
          refine ⟨mt Nat.digitChar_eq_zero.mp (Nat.ne_of_gt h), ?_⟩
          intro c hc
          rw [List.mem_singleton.mp hc, Nat.isDigit_digitChar, decide_eq_true hlt]
      · refine (ih (n / 10) (by omega) (by omega)).append fun c hc => ?_
        rw [List.mem_singleton.mp hc, Nat.isDigit_digitChar]
        exact decide_eq_true (Nat.mod_lt n (by decide))

namespace Decimal

theorem digits_zeros (n : Int) : ∀ c ∈ zeros n, c.isDigit = true := by
  intro c hc
  rw [List.eq_of_mem_replicate hc]
  decide

/-- The number of digits in front of the point. -/
def point (d : Decimal) : Int :=
  (Nat.toDigits 10 d.digits).length + d.exponent

def wholePart (d : Decimal) : List Char :=
  if 0 ≤ d.exponent then Nat.toDigits 10 d.digits ++ zeros d.exponent
  else if 0 < d.point then (Nat.toDigits 10 d.digits).take d.point.toNat
  else ['0']

/-- The digits behind the point, a zero if there are none. -/
def fractionPart (d : Decimal) : List Char :=
  if 0 ≤ d.exponent then ['0']
  else if 0 < d.point then (Nat.toDigits 10 d.digits).drop d.point.toNat
  else zeros (-d.point) ++ Nat.toDigits 10 d.digits

theorem plain_of_nonneg {d : Decimal} (h : 0 ≤ d.exponent) : d.plain "" = String.ofList d.wholePart := by
  rw [plain, wholePart, if_pos h, if_pos h, String.append_empty]

theorem plain_of_neg {d : Decimal} (h : ¬0 ≤ d.exponent) :
    d.plain "" = String.ofList (d.wholePart ++ '.' :: d.fractionPart) := by
  rw [plain, wholePart, fractionPart, if_neg h, if_neg h, if_neg h]
  change (if 0 < d.point then _ else _) = _
  split <;> rfl

theorem digits_wholePart (d : Decimal) : Digits d.wholePart := by
  obtain ⟨hnil, hdigits⟩ := digits_toDigits d.digits
  unfold wholePart
  split
  · refine ⟨List.append_ne_nil_of_left_ne_nil hnil _, fun c hc => ?_⟩
    rcases List.mem_append.mp hc with hc | hc
    · exact hdigits c hc
    · exact digits_zeros _ c hc
  · split
    · next hpoint =>
        refine ⟨fun htake => ?_, fun c hc => hdigits c (List.mem_of_mem_take hc)⟩
        rcases List.take_eq_nil_iff.mp htake with hzero | hds
        · omega
        · exact hnil hds
    · exact ⟨by simp, by simp⟩

theorem digits_fractionPart (d : Decimal) : Digits d.fractionPart := by
  obtain ⟨hnil, hdigits⟩ := digits_toDigits d.digits
  unfold fractionPart
  split
  · exact ⟨by simp, by simp⟩
  · split
    · refine ⟨fun hdrop => ?_, fun c hc => hdigits c (List.mem_of_mem_drop hc)⟩
      have hle := List.drop_eq_nil_iff.mp hdrop
      rw [point] at *
      omega
    · refine ⟨List.append_ne_nil_of_right_ne_nil _ hnil, fun c hc => ?_⟩
      rcases List.mem_append.mp hc with hc | hc
      · exact digits_zeros _ c hc
      · exact hdigits c hc

/-- The digits on both sides of the point spell the number. -/
theorem value_parts (d : Decimal) :
    (⟨Nat.ofDigitChars 10 (d.wholePart ++ d.fractionPart) 0, 0 - d.fractionPart.length⟩ : Decimal).value =
      d.value := by
  have hpoint : d.point = (Nat.toDigits 10 d.digits).length + d.exponent := rfl
  rw [wholePart, fractionPart]
  split
  · next hexponent =>
      have hspelled : Nat.ofDigitChars 10 (Nat.toDigits 10 d.digits ++ zeros d.exponent ++ ['0']) 0 =
          10 ^ d.exponent.toNat * d.digits * 10 := by
        rw [Nat.ofDigitChars_append, Nat.ofDigitChars_append, Nat.ofDigitChars_ten_toDigits, zeros,
          Nat.ofDigitChars_replicate_zero]
        exact (Nat.ofDigitChars_replicate_zero (n := 1)).trans (by ring)
      rw [hspelled, value, value]
      have hpow : (10 : ℚ) ^ d.exponent = 10 ^ d.exponent.toNat := by
        rw [← zpow_natCast, Int.toNat_of_nonneg hexponent]
      rw [hpow]
      push_cast
      norm_num
      ring
  · next hexponent =>
      split
      · next hpos =>
          have hlength : 0 - (((Nat.toDigits 10 d.digits).drop d.point.toNat).length : Int) = d.exponent := by
            rw [List.length_drop]
            omega
          rw [List.take_append_drop, Nat.ofDigitChars_ten_toDigits, hlength]
      · next hneg =>
          have hspelled : Nat.ofDigitChars 10 (['0'] ++ (zeros (-d.point) ++ Nat.toDigits 10 d.digits)) 0 =
              d.digits := by
            have hzero : Nat.ofDigitChars 10 ['0'] 0 = 0 := by decide
            rw [Nat.ofDigitChars_append, hzero, Nat.ofDigitChars_append, zeros,
              Nat.ofDigitChars_replicate_zero, Nat.mul_zero, Nat.ofDigitChars_ten_toDigits]
          have hlength : 0 - ((zeros (-d.point) ++ Nat.toDigits 10 d.digits).length : Int) = d.exponent := by
            rw [List.length_append, zeros, List.length_replicate]
            omega
          rw [hspelled, hlength]

theorem leading_wholePart {d : Decimal} (hdigits : 0 < d.digits) :
    Leading d.wholePart ∨ d.wholePart = ['0'] ∧ d.value < 1 := by
  have hleading := leading_toDigits hdigits
  unfold wholePart
  split
  · exact Or.inl (hleading.append (digits_zeros _))
  · split
    · next hpoint => exact Or.inl (hleading.take (by omega))
    · next hpoint =>
        refine Or.inr ⟨rfl, ?_⟩
        have hlength : d.digits < 10 ^ (Nat.toDigits 10 d.digits).length :=
          (Nat.length_toDigits_le_iff (by decide) Nat.length_toDigits_pos).mp (Nat.le_refl _)
        have hpow : (10 : ℚ) ^ d.point ≤ 1 := zpow_le_one_of_nonpos₀ (by norm_num) (by omega)
        rw [point, zpow_add₀ (by norm_num), zpow_natCast] at hpow
        refine lt_of_lt_of_le ?_ hpow
        unfold value
        exact mul_lt_mul_of_pos_right (by exact_mod_cast hlength) (zpow_pos (by norm_num) _)

end Decimal

end TurtleChain
