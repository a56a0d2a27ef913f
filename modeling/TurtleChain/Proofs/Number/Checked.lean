import Mathlib
import TurtleChain.Number.Checked

/-! Checked sums and products of words are the exact results, wherever the width holds them. A sum that is added to
does not have to be checked on its own: what is too great stays too great. -/

namespace TurtleChain

variable {width : Nat}

/-- The number as a word, if the width holds it. -/
def wordOf? (width n : Nat) : Option (BitVec width) :=
  if n < 2 ^ width then some (.ofNat width n) else none

theorem wordOf?_of_lt {n : Nat} (h : n < 2 ^ width) : wordOf? width n = some (.ofNat width n) :=
  if_pos h

theorem wordOf?_of_le {n : Nat} (h : 2 ^ width ≤ n) : wordOf? width n = none :=
  if_neg h.not_gt

/-- A result that is given unless its exact number is too great. -/
theorem ite_overflow_eq {n : Nat} {x : BitVec width} (h : BitVec.ofNat width n = x) :
    (if decide (n ≥ 2 ^ width) = true then none else some x) = wordOf? width n := by
  rw [wordOf?, h]
  simp only [decide_eq_true_eq, ge_iff_le, ← not_lt, ite_not]

theorem checkedAdd_eq (x y : BitVec width) : checkedAdd x y = wordOf? width (x.toNat + y.toNat) :=
  ite_overflow_eq (by simp [BitVec.ofNat_add])

theorem checkedMul_eq (x y : BitVec width) : checkedMul x y = wordOf? width (x.toNat * y.toNat) :=
  ite_overflow_eq (by simp [BitVec.ofNat_mul])

theorem toNat_ofNat_of_lt {n : Nat} (h : n < 2 ^ width) : (BitVec.ofNat width n).toNat = n :=
  (BitVec.toNat_ofNat n width).trans (Nat.mod_eq_of_lt h)

theorem numberOr_wordOf? {ε : Type} (e : ε) (n : Nat) :
    numberOr e (wordOf? width n) = if n < 2 ^ width then .ok n else .error e := by
  split_ifs with h
  · rw [wordOf?_of_lt h, numberOr, toNat_ofNat_of_lt h]
  · rw [wordOf?_of_le (not_lt.mp h), numberOr]

theorem wordOf?_bind_checkedAdd (n : Nat) (y : BitVec width) :
    ((wordOf? width n).bind fun x => checkedAdd x y) = wordOf? width (n + y.toNat) := by
  rcases Nat.lt_or_ge n (2 ^ width) with hlt | hge
  · rw [wordOf?_of_lt hlt, Option.bind_some, checkedAdd_eq, toNat_ofNat_of_lt hlt]
  · rw [wordOf?_of_le hge, wordOf?_of_le (hge.trans (Nat.le_add_right n y.toNat)), Option.bind_none]

end TurtleChain
