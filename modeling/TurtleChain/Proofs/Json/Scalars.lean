import TurtleChain.Json.Reader
import TurtleChain.Json.Writer
import TurtleChain.Proofs.Chain.Printing

/-! Strings and numbers are read as they are written. Every character of a string is read as one code unit,
whether it is escaped or not. Integers and finite doubles are spelled as the grammar of numbers asks, so the
reader takes all of a spelling and nothing behind it. -/

namespace TurtleChain.Json

open Grammar Binary64

/-! ### Strings -/

/-- Control characters are escaped by four digits, which spell them. -/
theorem hexDigits4_of_control {n : Nat} (h : n < 0x20) :
    ∃ a b c d, hexDigits4 n = [a, b, c, d] ∧ hexNumber? [a, b, c, d] = some n := by
  have hall : ∀ n < 0x20, (hexDigits4 n).length = 4 ∧ hexNumber? (hexDigits4 n) = some n := by decide +kernel
  obtain ⟨hlength, hvalue⟩ := hall n h
  obtain ⟨a, b, c, d, hdigits⟩ := List.length_eq_four.mp hlength
  exact ⟨a, b, c, d, hdigits, hdigits ▸ hvalue⟩

/-- What is read from a text with one more unit in front of it. -/
def behindUnit (unit : Nat) (read : Option (List Nat × List Char)) : Option (List Nat × List Char) :=
  read.map fun (more, rest) => (unit :: more, rest)

theorem units_letter {letter c : Char} (hne : letter ≠ 'u') (h : unescape? letter = some c) (rest : List Char) :
    units ('\\' :: letter :: rest) = behindUnit c.toNat (units rest) := by
  rw [units, h]
  · cases units rest <;> rfl
  · intro _ _ _ _ _ heq
    exact absurd heq hne

theorem units_digits {a b c d : Char} {n : Nat} (h : hexNumber? [a, b, c, d] = some n) (rest : List Char) :
    units ('\\' :: 'u' :: a :: b :: c :: d :: rest) = behindUnit n (units rest) := by
  rw [units, h]
  cases units rest <;> rfl

theorem units_plain {c : Char} (hquote : c ≠ '"') (hbackslash : c ≠ '\\') (hcontrol : 0x20 ≤ c.toNat)
    (rest : List Char) : units (c :: rest) = behindUnit c.toNat (units rest) := by
  rw [units, if_neg (Nat.not_lt.mpr hcontrol)]
  · cases units rest <;> rfl
  · exact hquote
  · exact fun _ _ _ _ _ h _ => hbackslash h
  · exact fun _ _ h _ => hbackslash h

theorem units_escape (c : Char) (rest : List Char) :
    units (escape c ++ rest) = behindUnit c.toNat (units rest) := by
  unfold escape
  split_ifs with hquote hb hf hn hr ht hcontrol
  · rcases hquote with rfl | rfl
    · exact units_letter (by decide) rfl rest
    · exact units_letter (by decide) rfl rest
  · exact hb ▸ units_letter (by decide) rfl rest
  · exact hf ▸ units_letter (by decide) rfl rest
  · exact hn ▸ units_letter (by decide) rfl rest
  · exact hr ▸ units_letter (by decide) rfl rest
  · exact ht ▸ units_letter (by decide) rfl rest
  · obtain ⟨a, b, c, d, hdigits, hvalue⟩ := hexDigits4_of_control hcontrol
    rw [hdigits]
    exact units_digits hvalue rest
  · exact units_plain (fun h => hquote (.inl h)) (fun h => hquote (.inr h)) (Nat.not_lt.mp hcontrol) rest

theorem units_content (cs rest : List Char) :
    units (cs.flatMap escape ++ '"' :: rest) = some (cs.map Char.toNat, rest) := by
  induction cs with
  | nil => rfl
  | cons c cs ih =>
      rw [List.flatMap_cons, List.append_assoc, units_escape, ih]
      rfl

/-- No character is half of a surrogate pair. -/
theorem not_half (c : Char) : isLeading c.toNat = false ∧ isTrailing c.toNat = false := by
  have hvalid : c.toNat < 0xD800 ∨ 0xDFFF < c.toNat ∧ c.toNat < 0x110000 := c.valid
  simp only [isLeading, isTrailing, Bool.and_eq_false_iff, decide_eq_false_iff_not]
  omega

theorem joinUnits?_toNat (cs : List Char) : joinUnits? (cs.map Char.toNat) = some cs := by
  induction cs with
  | nil => rfl
  | cons c cs ih =>
      obtain ⟨hleading, htrailing⟩ := not_half c
      cases cs with
      | nil => simp [joinUnits?, hleading, htrailing]
      | cons c' cs =>
          rw [List.map_cons, List.map_cons, joinUnits?, hleading, htrailing, ← List.map_cons, ih]
          simp

/-- The text of a string behind its opening quote. -/
def stringTail (s : String) : List Char :=
  s.toList.flatMap escape ++ ['"']

theorem toList_quoted (s : String) : (quoted s).toList = '"' :: stringTail s := by
  rw [quoted, String.toList_ofList, List.cons_append]
  rfl

theorem readString_stringTail (s : String) (rest : List Char) :
    readString (stringTail s ++ rest) = some (some s, rest) := by
  rw [stringTail, List.append_assoc, readString, List.singleton_append, units_content, Option.map_some]
  simp only [joinUnits?_toNat, Option.map_some, String.ofList_toList]

/-! ### The grammar of numbers -/

/-- A zero, or digits without a zero in front. -/
def Whole (ds : List Char) : Prop :=
  ds = ['0'] ∨ Leading ds

/-- Nothing, or a point and digits. -/
inductive FractionSpelling : List Char → Prop where
  | none : FractionSpelling []
  | digits {ds : List Char} (h : Digits ds) : FractionSpelling ('.' :: ds)

/-- Nothing, or the mark of an exponent, its sign and digits. -/
inductive ExponentSpelling : List Char → Prop where
  | none : ExponentSpelling []
  | digits {sign : Char} {ds : List Char} (hsign : sign = '+' ∨ sign = '-') (h : Digits ds) :
      ExponentSpelling ('e' :: sign :: ds)

/-- How numbers are written: a sign, a whole part, a fraction and an exponent. -/
inductive NumberSpelling : List Char → Prop where
  | mk {whole fraction exponent : List Char} (negative : Bool) (hwhole : Whole whole)
      (hfraction : FractionSpelling fraction) (hexponent : ExponentSpelling exponent) :
      NumberSpelling (Numeral.signed negative whole ++ (fraction ++ exponent))

/-- A number may go on with this character. -/
def continuesNumber (c : Char) : Bool :=
  c.isDigit || c = '.' || c = 'e' || c = 'E'

theorem Whole.digits {ds : List Char} (h : Whole ds) : Digits ds := by
  rcases h with rfl | h
  · decide
  · exact h.digits

theorem stops_digit {rest : List Char} (h : Stops continuesNumber rest) : Stops Char.isDigit rest := by
  intro c hc
  have hstop := h c hc
  simp only [continuesNumber, Bool.or_eq_false_iff] at hstop
  exact hstop.1.1.1

theorem FractionSpelling.stops {fraction rest : List Char} (h : FractionSpelling fraction)
    (hrest : Stops Char.isDigit rest) : Stops Char.isDigit (fraction ++ rest) := by
  cases h with
  | none => exact hrest
  | digits => exact stops_cons.mpr (by decide)

theorem ExponentSpelling.stops {exponent rest : List Char} (h : ExponentSpelling exponent)
    (hrest : Stops Char.isDigit rest) : Stops Char.isDigit (exponent ++ rest) := by
  cases h with
  | none => exact hrest
  | digits => exact stops_cons.mpr (by decide)

theorem digits1_append {ds rest : List Char} (h : Digits ds) (hrest : Stops Char.isDigit rest) :
    digits1 (ds ++ rest) = some (ds, rest) := by
  rw [digits1, Numeral.splitDigits_append h.2 hrest]
  exact if_neg (mt List.isEmpty_iff.mp h.1)

theorem wholePart_append {ds rest : List Char} (h : Whole ds) (hrest : Stops Char.isDigit rest) :
    wholePart (ds ++ rest) = some (ds, rest) := by
  rcases h with rfl | h
  · have hsplit : Numeral.splitDigits rest = ([], rest) := by
      rw [Numeral.splitDigits, hrest.takeWhile, hrest.dropWhile]
    rw [List.singleton_append, wholePart, hsplit]
    rfl
  · obtain ⟨d, tail, rfl, hzero, -⟩ := h.cons_inv
    rw [← digits1_append h.digits hrest, List.cons_append, wholePart]
    intro rest' heq
    exact hzero (List.cons.inj heq).1

theorem fractionPart_append {fraction rest : List Char} (h : FractionSpelling fraction)
    (hrest : Stops Char.isDigit rest) (hpoint : rest.head? ≠ some '.') :
    fractionPart (fraction ++ rest) = some (fraction, rest) := by
  cases h with
  | none =>
      rw [List.nil_append, fractionPart]
      rintro rest' rfl
      exact hpoint rfl
  | digits hdigits => rw [List.cons_append, fractionPart, digits1_append hdigits hrest, Option.map_some]

theorem exponentPart_append {exponent rest : List Char} (h : ExponentSpelling exponent)
    (hrest : Stops continuesNumber rest) : exponentPart (exponent ++ rest) = some (exponent, rest) := by
  cases h with
  | none =>
      cases rest with
      | nil => rfl
      | cons c rest =>
          have hmark : ¬(c = 'e' ∨ c = 'E') := by
            have hstop := stops_cons.mp hrest
            simp only [continuesNumber, Bool.or_eq_false_iff, decide_eq_false_iff_not] at hstop
            exact not_or.mpr ⟨hstop.1.2, hstop.2⟩
          rw [List.nil_append]
          unfold exponentPart
          exact if_neg hmark
  | digits hsign hdigits =>
      rcases hsign with rfl | rfl
      all_goals
        rw [List.cons_append, List.cons_append, exponentPart, if_pos (.inl rfl)]
        simp only [digits1_append hdigits (stops_digit hrest)]
        rfl

/-- A spelling is read to its end, and nothing of what is behind it. -/
theorem NumberSpelling.readNumber {cs rest : List Char} (h : NumberSpelling cs)
    (hrest : Stops continuesNumber rest) : readNumber (cs ++ rest) = some (number (String.ofList cs), rest) := by
  obtain ⟨negative, hwhole, hfraction, hexponent⟩ := h
  rename_i whole fraction exponent
  have hbehind := hexponent.stops (stops_digit hrest)
  have hpoint : (exponent ++ rest).head? ≠ some '.' := by
    cases hexponent with
    | none => exact fun h => absurd (hrest '.' h) (by decide)
    | digits => simp
  have hwholePart := wholePart_append hwhole (hfraction.stops hbehind)
  have hfractionPart := fractionPart_append hfraction hbehind hpoint
  have hexponentPart := exponentPart_append hexponent hrest
  rw [List.append_assoc, List.append_assoc]
  cases negative with
  | true =>
      rw [Numeral.signed, if_pos rfl, List.cons_append, Json.readNumber]
      simp [hwholePart, hfractionPart, hexponentPart]
  | false =>
      cases whole with
      | nil => exact absurd rfl hwhole.digits.1
      | cons d tail =>
          have hminus : d ≠ '-' := ne_of_class (hwhole.digits.2 d List.mem_cons_self) (by decide)
          rw [List.cons_append] at hwholePart
          rw [Numeral.signed, if_neg Bool.false_ne_true, List.cons_append, Json.readNumber]
          · simp [hwholePart, hfractionPart, hexponentPart, String.append_assoc]
          · intro _ heq
            exact hminus (List.cons.inj heq).1

/-- A spelling starts with a minus or a digit. -/
theorem NumberSpelling.cons_inv {cs : List Char} (h : NumberSpelling cs) :
    ∃ c tail, cs = c :: tail ∧ (c = '-' ∨ c.isDigit = true) := by
  obtain ⟨negative, hwhole, -, -⟩ := h
  cases negative with
  | true => exact ⟨_, _, rfl, .inl rfl⟩
  | false =>
      obtain ⟨hne, hdigits⟩ := hwhole.digits
      obtain ⟨d, tail, rfl⟩ := List.exists_cons_of_ne_nil hne
      exact ⟨d, _, rfl, .inr (hdigits d List.mem_cons_self)⟩

/-! ### How integers and doubles are spelled -/

theorem numberSpelling_integer {cs : List Char} {n : Int} (h : Integer cs n) : NumberSpelling cs := by
  have hspelling {whole : List Char} (negative : Bool) (hwhole : Whole whole) :
      NumberSpelling (Numeral.signed negative whole) := by
    have hnumber := NumberSpelling.mk negative hwhole .none .none
    rwa [List.append_nil, List.append_nil] at hnumber
  cases h with
  | zero => exact hspelling false (.inl rfl)
  | positive h => exact hspelling false (.inr h)
  | negative h => exact hspelling true (.inr h)

/-- Zero has one digit and no power of ten. -/
theorem shortest_of_digits_eq_zero {tie : Tie} {x : Float} (hx : magnitudeBits x < infinityBits)
    (hdigits : (Decimal.shortest tie x).digits = 0) : Decimal.shortest tie x = ⟨0, 0⟩ := by
  have hzero : magnitudeBits x = 0 := by
    rw [← Decimal.shortest_bits tie hx, Decimal.bits_zero hdigits]
  rw [← ofMagnitudeBits_isNegative x, hzero]
  cases isNegative x <;> cases tie <;> decide +kernel

theorem whole_wholePart {tie : Tie} {x : Float} (hx : magnitudeBits x < infinityBits) :
    Whole (Decimal.shortest tie x).wholePart := by
  by_cases hdigits : (Decimal.shortest tie x).digits = 0
  · rw [shortest_of_digits_eq_zero hx hdigits]
    exact .inl (by decide)
  · rcases Decimal.leading_wholePart (Nat.pos_of_ne_zero hdigits) with hleading | ⟨hzero, -⟩
    · exact .inr hleading
    · exact .inl hzero

/-- Positional text always has a fraction. -/
theorem plain_eq (d : Decimal) : (d.plain ".0").toList = d.wholePart ++ '.' :: d.fractionPart := by
  by_cases hexponent : 0 ≤ d.exponent
  · rw [Decimal.plain, Decimal.wholePart, Decimal.fractionPart, if_pos hexponent, if_pos hexponent, if_pos hexponent,
      String.toList_append, String.toList_ofList]
    rfl
  · have hplain : d.plain ".0" = d.plain "" := by
      rw [Decimal.plain, Decimal.plain, if_neg hexponent, if_neg hexponent]
    rw [hplain, Decimal.plain_of_neg hexponent, String.toList_ofList]

/-- Text with an exponent has one digit in front of the point, and the exponent is that of this digit. -/
theorem exists_scientific_eq (d : Decimal) :
    ∃ fraction sign, d.scientific.toList =
        (Nat.toDigits 10 d.digits).take 1 ++ (fraction ++ 'e' :: sign :: Nat.toDigits 10 d.leadingExponent.natAbs) ∧
      FractionSpelling fraction ∧ fraction.drop 1 = (Nat.toDigits 10 d.digits).drop 1 ∧
      (sign = '+' ∨ sign = '-') ∧ (sign = '-' ↔ d.leadingExponent < 0) := by
  obtain ⟨fraction, hfraction, hspelling, hdrop⟩ :
      ∃ fraction, (if (Nat.toDigits 10 d.digits).length ≤ 1 then [] else '.' :: (Nat.toDigits 10 d.digits).drop 1) =
        fraction ∧ FractionSpelling fraction ∧ fraction.drop 1 = (Nat.toDigits 10 d.digits).drop 1 := by
    refine ⟨_, rfl, ?_⟩
    split
    · next hshort => exact ⟨.none, (List.drop_eq_nil_of_le hshort).symm⟩
    · next hlong =>
        refine ⟨.digits ⟨fun hnil => hlong (List.drop_eq_nil_iff.mp hnil), fun c hc => ?_⟩, rfl⟩
        exact (digits_toDigits d.digits).2 c (List.mem_of_mem_drop hc)
  obtain ⟨sign, hmark, hsign, hnegative⟩ :
      ∃ sign, (if d.leadingExponent < 0 then "e-" else "e+").toList = ['e', sign] ∧ (sign = '+' ∨ sign = '-') ∧
        (sign = '-' ↔ d.leadingExponent < 0) := by
    split
    · next hneg => exact ⟨'-', rfl, .inr rfl, iff_of_true rfl hneg⟩
    · next hneg => exact ⟨'+', rfl, .inl rfl, iff_of_false (by decide) hneg⟩
  refine ⟨fraction, sign, ?_, hspelling, hdrop, hsign, hnegative⟩
  have hscientific : d.scientific = String.ofList ((Nat.toDigits 10 d.digits).take 1 ++
      if (Nat.toDigits 10 d.digits).length ≤ 1 then [] else '.' :: (Nat.toDigits 10 d.digits).drop 1) ++
      (if d.leadingExponent < 0 then "e-" else "e+") ++ toString d.leadingExponent.natAbs := rfl
  rw [hscientific, String.toList_append, String.toList_append, String.toList_ofList, hfraction, hmark,
    toList_toString_nat]
  simp

theorem magnitude_cases (x : Float) :
    jsonStyle.magnitude x = (Decimal.shortest .toEven x).plain ".0" ∨
      0 < (Decimal.shortest .toEven x).digits ∧
        jsonStyle.magnitude x = (Decimal.shortest .toEven x).scientific := by
  by_cases hwindow : ((Decimal.shortest .toEven x).digits = 0 ||
      (decide (-5 ≤ (Decimal.shortest .toEven x).leadingExponent) &&
        decide ((Decimal.shortest .toEven x).leadingExponent ≤ 15))) = true
  · exact .inl (if_pos hwindow)
  · refine .inr ⟨Nat.pos_of_ne_zero fun hzero => hwindow ?_, if_neg hwindow⟩
    rw [decide_eq_true hzero, Bool.true_or]

theorem exists_magnitude_eq {x : Float} (hx : magnitudeBits x < infinityBits) :
    ∃ whole fraction exponent, (jsonStyle.magnitude x).toList = whole ++ (fraction ++ exponent) ∧ Whole whole ∧
      FractionSpelling fraction ∧ ExponentSpelling exponent := by
  rcases magnitude_cases x with hplain | ⟨hdigits, hscientific⟩
  · rw [hplain, plain_eq]
    exact ⟨_, _, [], by rw [List.append_nil], whole_wholePart hx, .digits (Decimal.digits_fractionPart _), .none⟩
  · obtain ⟨fraction, sign, htext, hfraction, -, hsign, -⟩ := exists_scientific_eq (Decimal.shortest .toEven x)
    rw [hscientific, htext]
    exact ⟨_, _, _, rfl, .inr ((leading_toDigits hdigits).take one_pos), hfraction,
      .digits hsign (digits_toDigits _)⟩

theorem signed_append (negative : Bool) (ds rest : List Char) :
    Numeral.signed negative (ds ++ rest) = Numeral.signed negative ds ++ rest := by
  cases negative <;> rfl

theorem render_of_isFinite {x : Float} (h : x.isFinite = true) :
    (jsonStyle.render x).toList = Numeral.signed (isNegative x) (jsonStyle.magnitude x).toList := by
  rw [NumeralStyle.render, isNaN_eq_false (isFinite_iff.mp h).le, h]
  cases isNegative x <;> simp [Numeral.signed]

theorem numberSpelling_render {x : Float} (h : x.isFinite = true) :
    NumberSpelling (jsonStyle.render x).toList := by
  obtain ⟨whole, fraction, exponent, hmagnitude, hwhole, hfraction, hexponent⟩ :=
    exists_magnitude_eq (isFinite_iff.mp h)
  rw [render_of_isFinite h, hmagnitude, signed_append]
  exact .mk (isNegative x) hwhole hfraction hexponent

end TurtleChain.Json
