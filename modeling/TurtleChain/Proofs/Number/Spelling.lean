import TurtleChain.Proofs.Chain.Scanning

/-! Reading the spelled numbers of the grammar: an integer reads as the integer it spells, and the spelling
of a float as its sign, the digits in front of the point and those behind it. -/

namespace TurtleChain.Numeral

open Grammar

theorem splitSign_digit {d : Char} (h : d.isDigit = true) (cs : List Char) :
    splitSign (d :: cs) = (false, d :: cs) := by
  have hminus : d ≠ '-' := ne_of_class h (by decide)
  have hplus : d ≠ '+' := ne_of_class h (by decide)
  simp [splitSign, hminus, hplus]

theorem splitDigits_append {ds rest : List Char} (hds : ∀ d ∈ ds, d.isDigit = true)
    (hrest : Stops Char.isDigit rest) : splitDigits (ds ++ rest) = (ds, rest) := by
  rw [splitDigits, takeWhile_append_of_stops hds hrest, dropWhile_append_of_stops hds hrest]

/-- The text of a sign in front of digits. -/
def signed (negative : Bool) (ds : List Char) : List Char :=
  if negative then '-' :: ds else ds

theorem splitSign_signed {ds : List Char} (hds : Digits ds) (negative : Bool) (rest : List Char) :
    splitSign (signed negative ds ++ rest) = (negative, ds ++ rest) := by
  cases negative with
  | true => rfl
  | false =>
      cases ds with
      | nil => exact absurd rfl hds.1
      | cons d ds => exact splitSign_digit (hds.2 d List.mem_cons_self) (ds ++ rest)

/-- A spelled integer is a sign and digits, and a minus only stands in front of a digit other than zero. -/
theorem integer_signed {cs : List Char} {n : Int} (h : Integer cs n) :
    ∃ negative ds, cs = signed negative ds ∧ Digits ds ∧ (negative = true → Leading ds) ∧
      n = applySign negative (Nat.ofDigitChars 10 ds 0) := by
  cases h with
  | zero => exact ⟨false, ['0'], rfl, ⟨by simp, by simp⟩, by simp, rfl⟩
  | positive h => exact ⟨false, cs, rfl, h.digits, by simp, rfl⟩
  | @negative ds h => exact ⟨true, ds, rfl, h.digits, fun _ => h, rfl⟩

theorem readInt?_integer {cs : List Char} {n : Int} (h : Integer cs n) : readInt? cs = some n := by
  obtain ⟨negative, ds, rfl, hds, -, rfl⟩ := integer_signed h
  have hsplit := splitSign_signed hds negative []
  rw [List.append_nil, List.append_nil] at hsplit
  rw [readInt?, hsplit]
  exact if_pos ⟨hds.1, List.all_eq_true.mpr hds.2⟩

theorem read?_signed {negative : Bool} {ds digits : List Char} (hds : Digits ds) (hdigits : Digits digits) :
    read? (signed negative ds ++ '.' :: digits) = some ⟨negative, ds, digits, 0⟩ := by
  have hwhole : splitDigits (ds ++ '.' :: digits) = (ds, '.' :: digits) :=
    splitDigits_append hds.2 (stops_cons.mpr (by decide))
  have hfraction : splitDigits digits = (digits, []) := by
    have hsplit := splitDigits_append hdigits.2 Stops.nil
    rwa [List.append_nil] at hsplit
  rw [read?, splitSign_signed hds]
  simp only [hwhole, hfraction, if_neg fun hnil : ds = [] ∧ digits = [] => hds.1 hnil.1]
  rfl

theorem readFloat?_signed {negative : Bool} {ds digits : List Char} (hds : Digits ds)
    (hdigits : Digits digits) :
    readFloat? (String.ofList (signed negative ds ++ '.' :: digits)) =
      some (toFloat ⟨negative, ds, digits, 0⟩) := by
  rw [readFloat?, String.toList_ofList, read?_signed hds hdigits]

end TurtleChain.Numeral
