import TurtleChain.Proofs.Curve.Parameter

/-! The text of a number as a text of its own. Up to the greatest length that is built with it is one token, which
reads as that number: an integer if the number is whole, and a float otherwise. Only what lies strictly between minus
one and zero has a text that is no token, because a zero stands behind its minus. -/

namespace TurtleChain

open Grammar Lexer Binary64

/-! ### The token of a spelled number -/

section

variable {cs : List Char} {arg : Arg} (h : Value cs arg) (harg : arg.isNumber = true)

include h harg

theorem lexeme_of_isNumber : Lexeme (.number (String.ofList cs)) cs [] := by
  cases h with
  | int h => exact .integer h Stops.nil (by simp)
  | float h => exact .fraction h Stops.nil
  | member | ident | text => cases harg

theorem spelled_of_isNumber (start : Nat) : Parser.spelled (String.ofList cs) start = .ok arg := by
  cases h with
  | int h => rw [Parser.spelled_integer h, if_pos (Parser.fitsInt64_toInt _), Int64.ofInt_toInt]
  | float h hx =>
      obtain ⟨y, hread, hspelled⟩ := Parser.spelled_fraction h start
      rw [hread] at hx
      cases hx
      exact hspelled
  | member | ident | text => cases harg

theorem tokens_of_isNumber :
    tokens (String.ofList cs) =
      [⟨.number (String.ofList cs), 0, cs.length⟩, ⟨.eof, cs.length, cs.length⟩] := by
  have htokens := tokensAt_lexeme (lexeme_of_isNumber h harg) 0
  rw [List.append_nil, tokensAt_nil, Nat.zero_add] at htokens
  rwa [tokens_eq_tokensAt, String.toList_ofList]

end

/-! ### Numbers that are written -/

theorem value_numberText {x : Float} (h : WritableNumber x) : Value (numberText x).toList (Arg.ofNumber x) := by
  rw [← Arg.render_ofNumber h]
  exact Arg.value_render (Arg.wellFormed_ofNumber h)

/-- The argument is an integer of that value, or the number itself, which is then not whole. -/
theorem ofNumber_cases {x : Float} (h : WritableNumber x) :
    (∃ n : Int64, Arg.ofNumber x = .int n ∧ toRat x = n.toInt) ∨
      Arg.ofNumber x = .float x ∧ ∀ n : Int, toRat x ≠ n := by
  by_cases hwhole : isWhole x = true
  · refine Or.inl ⟨Int64.ofInt (wholeValue x), if_pos hwhole, ?_⟩
    rw [h.toInt_ofInt, cast_wholeValue ((isWhole_iff h.isFinite).mp hwhole)]
  · refine Or.inr ⟨if_neg hwhole, fun n hn => hwhole ?_⟩
    refine isWhole_of_magnitude h.isFinite (n := n.natAbs) ?_
    rw [← abs_toRat, hn, Nat.cast_natAbs, Int.cast_abs]

/-! ### Numbers between minus one and zero -/

/-- A positional text starts with its whole part. -/
theorem Decimal.exists_plain_eq (d : Decimal) : ∃ rest, (d.plain "").toList = d.wholePart ++ rest := by
  by_cases hexponent : 0 ≤ d.exponent
  · exact ⟨[], by rw [plain_of_nonneg hexponent, String.toList_ofList, List.append_nil]⟩
  · exact ⟨'.' :: d.fractionPart, by rw [plain_of_neg hexponent, String.toList_ofList]⟩

/-- The shortest decimal of a double below one is below one itself, so it has no other digit than a zero in front
of its point. -/
theorem Decimal.wholePart_shortest {x : Float} (hpos : 0 < magnitudeBits x) (hlt : magnitudeBits x < oneBits) :
    (shortest .up x).wholePart = ['0'] := by
  have hbits := shortest_bits .up (hlt.trans (show oneBits < infinityBits by decide))
  have hdigits : 0 < (shortest .up x).digits := by
    refine Nat.pos_of_ne_zero fun hzero => ?_
    rw [bits_zero hzero] at hbits
    omega
  rcases leading_wholePart hdigits with hleading | ⟨hwhole, -⟩
  · have hone : 1 ≤ (Numeral.toDecimal ⟨false, _, (shortest .up x).fractionPart, 0⟩).value :=
      Numeral.one_le_value hleading false
    rw [Numeral.toDecimal, value_parts, ← value_one] at hone
    have hle := bits_mono hone
    rw [bits_one, hbits] at hle
    omega
  · exact hwhole

theorem exists_numberText_eq {x : Float} (hnegative : isNegative x = true) (hpos : 0 < magnitudeBits x)
    (hlt : magnitudeBits x < oneBits) : ∃ rest, (numberText x).toList = '-' :: '0' :: rest := by
  have hfinite : x.isFinite = true := isFinite_iff.mpr (hlt.trans (by decide))
  obtain ⟨rest, hplain⟩ := (Decimal.shortest .up x).exists_plain_eq
  refine ⟨rest, ?_⟩
  rw [numberText, if_neg (mt beq_zero_iff.mp hpos.ne'), Arg.plainText_eq hfinite, String.toList_ofList, hnegative,
    hplain, Decimal.wholePart_shortest hpos hlt]
  rfl

/-! ### All numbers up to the limit -/

/-- A number up to the limit is written as one token, an integer of that value or the float itself if it is not
whole; but the text of one strictly between minus one and zero is refused at its second character. -/
theorem numberText_reads_back {x : Float} (hfinite : x.isFinite = true) (hle : x.abs ≤ 1e15) :
    (¬(-1 < x ∧ x < 0) →
        tokens (numberText x) =
            [⟨.number (numberText x), 0, (numberText x).length⟩,
              ⟨.eof, (numberText x).length, (numberText x).length⟩] ∧
          ∀ start,
            (∃ n : Int64, Parser.spelled (numberText x) start = .ok (.int n) ∧ toRat x = n.toInt) ∨
              Parser.spelled (numberText x) start = .ok (.float x) ∧ ∀ n : Int, toRat x ≠ n) ∧
      (-1 < x ∧ x < 0 →
        ∃ rest, tokens (numberText x) = ⟨.error ⟨1, some '0', .zeroAfterMinus⟩, 0, 2⟩ :: rest) := by
  have hbits : magnitudeBits x ≤ magnitudeBits Parameter.limit := (Parameter.abs_le_limit_iff hfinite).mp hle
  constructor
  · intro hbetween
    have hwritable : WritableNumber x := by
      refine Parameter.writable_of_le_limit hbits fun hnegative => ?_
      by_contra hnone
      obtain ⟨hzero, hone⟩ := not_or.mp hnone
      exact hbetween ⟨(neg_one_lt_iff hfinite hnegative).mpr (Nat.lt_of_not_le hone),
        (lt_zero_iff hfinite).mpr ⟨hnegative, Nat.pos_of_ne_zero hzero⟩⟩
    have hvalue := value_numberText hwritable
    have hnumber := Arg.isNumber_ofNumber x
    have htokens := tokens_of_isNumber hvalue hnumber
    have hspelled := spelled_of_isNumber hvalue hnumber
    rw [String.ofList_toList, String.length_toList] at htokens
    rw [String.ofList_toList] at hspelled
    refine ⟨htokens, fun start => ?_⟩
    rw [hspelled start]
    rcases ofNumber_cases hwritable with ⟨n, harg, hn⟩ | ⟨harg, hn⟩
    · exact Or.inl ⟨n, congrArg Except.ok harg, hn⟩
    · exact Or.inr ⟨congrArg Except.ok harg, hn⟩
  · rintro ⟨hone, hzero⟩
    obtain ⟨hnegative, hpos⟩ := (lt_zero_iff hfinite).mp hzero
    obtain ⟨rest, htext⟩ := exists_numberText_eq hnegative hpos ((neg_one_lt_iff hfinite hnegative).mp hone)
    rw [tokens_eq_tokensAt, htext]
    exact ⟨_, tokensAt_malformed (.zeroAfterMinus rest) 0⟩

/-- Minus zero is the integer zero, and one half below it is no token. -/
theorem numberText_reads_back_minus_zero :
    ((-0.0 : Float).isFinite = true ∧ (-0.0 : Float).abs ≤ 1e15 ∧ ¬(-1 < (-0.0 : Float) ∧ (-0.0 : Float) < 0)) ∧
      numberText (-0.0) = "0" ∧ tokens "0" = [⟨.number "0", 0, 1⟩, ⟨.eof, 1, 1⟩] ∧
        (∀ start, Parser.spelled "0" start = .ok (.int 0)) ∧
          ∃ rest, tokens "-0.5" = ⟨.error ⟨1, some '0', .zeroAfterMinus⟩, 0, 2⟩ :: rest := by
  have hfinite : (-0.0 : Float).isFinite = true := by decide +kernel
  have hle : (-0.0 : Float).abs ≤ 1e15 := by decide +kernel
  have hbetween : ¬(-1 < (-0.0 : Float) ∧ (-0.0 : Float) < 0) := by decide +kernel
  have htext : numberText (-0.0) = "0" := by decide +kernel
  have hvalue : toRat (-0.0) = 0 := toRat_eq_zero_iff.mpr (by decide +kernel)
  obtain ⟨htokens, hspelled⟩ := (numberText_reads_back hfinite hle).1 hbetween
  rw [htext] at htokens hspelled
  refine ⟨⟨hfinite, hle, hbetween⟩, htext, htokens, fun start => ?_, ?_⟩
  · rcases hspelled start with ⟨n, hn, hnvalue⟩ | ⟨-, hnot⟩
    · rw [hvalue, eq_comm, Int.cast_eq_zero] at hnvalue
      rw [hn, Int64.toInt_inj.mp (hnvalue.trans Int64.toInt_zero.symm)]
    · exact absurd hvalue (hnot 0)
  · have hhalf : numberText (-0.5) = "-0.5" := by decide +kernel
    have hrefused := (numberText_reads_back (x := -0.5) (by decide +kernel) (by decide +kernel)).2 (by decide +kernel)
    rwa [hhalf] at hrefused

end TurtleChain
