import TurtleChain.Chain.Lexer
import TurtleChain.Proofs.Chain.Grammar

/-! What the lexer finds in front of a text. Every text that does not start with a space starts with a
lexeme, which is as long as it can be, or with a malformed one, which breaks off at a character that cannot
follow. In both cases the first token is known, and the tokens behind it are those of the rest. -/

namespace TurtleChain

open Grammar

/-! ### Character classes -/

theorem ne_of_class {p : Char → Bool} {c d : Char} (hc : p c = true) (hd : p d = false) : c ≠ d := by
  rintro rfl
  rw [hc] at hd
  cases hd

theorem isDigit_eq_false_of_isNameStart {c : Char} (h : isNameStart c = true) : c.isDigit = false := by
  simp only [isNameStart, Bool.or_eq_true, List.contains_iff_mem, List.mem_cons, List.not_mem_nil,
    or_false] at h
  rcases h with h | rfl | rfl | rfl | rfl | rfl
  · simp only [Char.isAlpha, Char.isUpper, Char.isLower, Bool.or_eq_true, Bool.and_eq_true,
      decide_eq_true_eq, UInt32.le_iff_toNat_le, ge_iff_le] at h
    change 65 ≤ c.toNat ∧ c.toNat ≤ 90 ∨ 97 ≤ c.toNat ∧ c.toNat ≤ 122 at h
    simp only [Char.isDigit, Bool.and_eq_false_iff, decide_eq_false_iff_not, ge_iff_le,
      UInt32.le_iff_toNat_le]
    change ¬48 ≤ c.toNat ∨ ¬c.toNat ≤ 57
    omega
  all_goals decide

theorem isNameChar_of_isNameStart {c : Char} (h : isNameStart c = true) : isNameChar c = true := by
  rw [isNameChar, h, Bool.true_or]

/-- The text does not go on with a character of the class. -/
def Stops (p : Char → Bool) (cs : List Char) : Prop :=
  ∀ c ∈ cs.head?, p c = false

theorem Stops.nil {p : Char → Bool} : Stops p [] := by
  intro c hc
  cases hc

theorem stops_cons {p : Char → Bool} {c : Char} {cs : List Char} : Stops p (c :: cs) ↔ p c = false := by
  simp [Stops]

theorem Stops.takeWhile {p : Char → Bool} {cs : List Char} (h : Stops p cs) : cs.takeWhile p = [] := by
  cases cs with
  | nil => rfl
  | cons c cs => rw [List.takeWhile_cons, stops_cons.mp h, if_neg Bool.false_ne_true]

theorem Stops.dropWhile {p : Char → Bool} {cs : List Char} (h : Stops p cs) : cs.dropWhile p = cs := by
  cases cs with
  | nil => rfl
  | cons c cs => rw [List.dropWhile_cons, stops_cons.mp h, if_neg Bool.false_ne_true]

theorem takeWhile_append_of_stops {p : Char → Bool} {cs rest : List Char} (hcs : ∀ c ∈ cs, p c = true)
    (h : Stops p rest) : (cs ++ rest).takeWhile p = cs := by
  rw [List.takeWhile_append_of_pos hcs, h.takeWhile, List.append_nil]

theorem dropWhile_append_of_stops {p : Char → Bool} {cs rest : List Char} (hcs : ∀ c ∈ cs, p c = true)
    (h : Stops p rest) : (cs ++ rest).dropWhile p = rest := by
  rw [List.dropWhile_append_of_pos hcs, h.dropWhile]

/-- A text is what it starts with of the class, and a rest that starts with none of it. -/
theorem exists_span (p : Char → Bool) (cs : List Char) :
    ∃ front rest, cs = front ++ rest ∧ (∀ c ∈ front, p c = true) ∧ Stops p rest := by
  refine ⟨cs.takeWhile p, cs.dropWhile p, List.takeWhile_append_dropWhile.symm, ?_, ?_⟩
  · intro c hc
    exact List.all_eq_true.mp List.all_takeWhile c hc
  · intro c hc
    have hnot := List.head?_dropWhile_not p cs
    rw [Option.mem_def.mp hc] at hnot
    exact hnot

/-- The lexemes of tokens of that kind start with the character. -/
def TokenKind.StartsWith : TokenKind → Char → Prop
  | .pipe, c => c = '|'
  | .colon, c => c = ':'
  | .dot, c => c = '.'
  | .ident _, c => isNameStart c = true
  | .number _, c => c = '-' ∨ c.isDigit = true
  | .string _, c => c = '"'
  | .eof, _ | .error _, _ => False

theorem TokenKind.StartsWith.ne_space {kind : TokenKind} {c : Char} (h : kind.StartsWith c) : c ≠ ' ' := by
  cases kind with
  | pipe | colon | dot | string =>
      rw [show c = _ from h]
      decide
  | ident => exact ne_of_class (show isNameStart c = true from h) (by decide)
  | number =>
      rcases h with rfl | h
      · decide
      · exact ne_of_class h (by decide)
  | eof | error => exact h.elim

theorem integer_cons_inv {cs : List Char} {n : Int} (h : Integer cs n) :
    ∃ c tail, cs = c :: tail ∧ (c = '-' ∨ c.isDigit = true) := by
  cases h with
  | zero => exact ⟨'0', [], rfl, Or.inr rfl⟩
  | positive h =>
      obtain ⟨d, tail, rfl, -, hd, -⟩ := h.cons_inv
      exact ⟨d, tail, rfl, Or.inr hd⟩
  | negative h => exact ⟨'-', _, rfl, Or.inl rfl⟩

namespace Lexer

/-! ### Lexemes -/

/-- The text is the lexeme of a token of that kind in front of the rest. -/
inductive Lexeme : TokenKind → List Char → List Char → Prop where
  | pipe (rest : List Char) : Lexeme .pipe ['|'] rest
  | colon (rest : List Char) : Lexeme .colon [':'] rest
  | dot (rest : List Char) : Lexeme .dot ['.'] rest
  | ident {name rest : List Char} (h : Name name) (hrest : Stops isNameChar rest) :
      Lexeme (.ident (String.ofList name)) name rest
  | integer {cs rest : List Char} {n : Int} (h : Integer cs n) (hrest : Stops Char.isDigit rest)
      (hpoint : rest.head? ≠ some '.') : Lexeme (.number (String.ofList cs)) cs rest
  | fraction {cs rest : List Char} (h : Fraction cs) (hrest : Stops Char.isDigit rest) :
      Lexeme (.number (String.ofList cs)) cs rest
  | string {cs : List Char} (h : ∀ c ∈ cs, isTextChar c = true) (rest : List Char) :
      Lexeme (.string (String.ofList cs)) ('"' :: (cs ++ ['"'])) rest

/-- A token can start with the character. -/
def startsToken (c : Char) : Bool :=
  ['|', ':', '.', '"', '-'].contains c || c.isDigit || isNameStart c

/-- The text starts a token that cannot go on with the rest, for the cause. -/
inductive Malformed : SyntaxError.Cause → List Char → List Char → Prop where
  | stray {c : Char} {rest : List Char} (hc : c ≠ ' ') (h : startsToken c = false) :
      Malformed (.unexpectedCharacter c) [] (c :: rest)
  | zeroAfterMinus (rest : List Char) : Malformed .zeroAfterMinus ['-'] ('0' :: rest)
  | noDigitAfterMinus {rest : List Char} (h : Stops Char.isDigit rest) :
      Malformed .noDigitAfterMinus ['-'] rest
  | leadingZero {d : Char} {rest : List Char} (h : d.isDigit = true) :
      Malformed .leadingZero ['0'] (d :: rest)
  | noDigitAfterPoint {whole rest : List Char} {n : Int} (hwhole : Integer whole n)
      (h : Stops Char.isDigit rest) : Malformed .noDigitAfterPoint (whole ++ ['.']) rest
  | openString {cs : List Char} (h : ∀ c ∈ cs, isTextChar c = true) : Malformed .openString ('"' :: cs) []
  | badStringCharacter {cs rest : List Char} {c : Char} (h : ∀ c ∈ cs, isTextChar c = true)
      (hc : isTextChar c = false) (hquote : c ≠ '"') :
      Malformed (.badStringCharacter c) ('"' :: cs) (c :: rest)

theorem Lexeme.cons_inv {kind : TokenKind} {text rest : List Char} (h : Lexeme kind text rest) :
    ∃ c tail, text = c :: tail ∧ kind.StartsWith c := by
  cases h with
  | pipe | colon | dot | string => exact ⟨_, _, rfl, rfl⟩
  | ident h =>
      obtain ⟨c, tail, rfl, hc, -⟩ := h.cons_inv
      exact ⟨c, tail, rfl, hc⟩
  | integer h =>
      obtain ⟨c, tail, rfl, hc⟩ := integer_cons_inv h
      exact ⟨c, tail, rfl, hc⟩
  | fraction h =>
      obtain ⟨hwhole, -⟩ := h
      obtain ⟨c, tail, rfl, hc⟩ := integer_cons_inv hwhole
      exact ⟨c, _, rfl, hc⟩

theorem Malformed.cons_inv {cause : SyntaxError.Cause} {text rest : List Char}
    (h : Malformed cause text rest) : ∃ c tail, text ++ rest = c :: tail ∧ c ≠ ' ' := by
  cases h with
  | stray hc => exact ⟨_, _, rfl, hc⟩
  | noDigitAfterPoint hwhole =>
      obtain ⟨c, tail, rfl, hc⟩ := integer_cons_inv hwhole
      refine ⟨c, _, rfl, ?_⟩
      rcases hc with rfl | hc
      · decide
      · exact ne_of_class hc (by decide)
  | _ => exact ⟨_, _, rfl, by decide⟩

/-! ### Reading a lexeme -/

theorem scan_digit {c : Char} (h : c.isDigit = true) (start : Nat) (cs : List Char) :
    scan start c cs = scanNumber start (c :: cs) := by
  have hpipe : c ≠ '|' := ne_of_class h (by decide)
  have hcolon : c ≠ ':' := ne_of_class h (by decide)
  have hdot : c ≠ '.' := ne_of_class h (by decide)
  have hquote : c ≠ '"' := ne_of_class h (by decide)
  rw [scan, if_neg hpipe, if_neg hcolon, if_neg hdot, if_neg hquote, if_pos (Or.inr h)]

theorem scan_minus (start : Nat) (cs : List Char) : scan start '-' cs = scanNumber start ('-' :: cs) := by
  simp [scan]

theorem scan_nameStart {c : Char} (h : isNameStart c = true) (start : Nat) (cs : List Char) :
    scan start c cs = scanIdent (c :: cs) := by
  have hpipe : c ≠ '|' := ne_of_class h (by decide)
  have hcolon : c ≠ ':' := ne_of_class h (by decide)
  have hdot : c ≠ '.' := ne_of_class h (by decide)
  have hquote : c ≠ '"' := ne_of_class h (by decide)
  have hminus : c ≠ '-' := ne_of_class h (by decide)
  have hdigit : ¬(c = '-' ∨ c.isDigit = true) := by
    rw [isDigit_eq_false_of_isNameStart h]
    simp [hminus]
  rw [scan, if_neg hpipe, if_neg hcolon, if_neg hdot, if_neg hquote, if_neg hdigit, if_pos h]

theorem scan_quote (start : Nat) (cs : List Char) : scan start '"' cs = scanString start cs := by
  simp [scan]

theorem scan_stray {c : Char} (h : startsToken c = false) (start : Nat) (cs : List Char) :
    scan start c cs = failAt start 0 (c :: cs) (.unexpectedCharacter c) := by
  simp only [startsToken, Bool.or_eq_false_iff, List.contains_eq_mem, decide_eq_false_iff_not,
    List.mem_cons, List.not_mem_nil, or_false, not_or] at h
  obtain ⟨⟨⟨hpipe, hcolon, hdot, hquote, hminus⟩, hdigit⟩, hname⟩ := h
  simp [scan, hpipe, hcolon, hdot, hquote, hminus, hdigit, hname]

/-- Digits that are not all of the number's whole part are no reason to stop. -/
theorem scanWhole_leading {ds rest : List Char} (h : Leading ds) (hrest : Stops Char.isDigit rest)
    (start : Nat) (sign : List Char) :
    scanWhole start sign (ds ++ rest) = scanFraction start (sign ++ ds) rest := by
  have hall := h.digits.2
  obtain ⟨d, tail, rfl, hzero, -, -⟩ := h.cons_inv
  rw [scanWhole]
  · rw [takeWhile_append_of_stops hall hrest, dropWhile_append_of_stops hall hrest]
  · intro cs hcs
    exact hzero (List.cons.inj hcs).1

theorem scanWhole_zero {rest : List Char} (hrest : Stops Char.isDigit rest) (start : Nat)
    (sign : List Char) :
    scanWhole start sign ('0' :: rest) = scanFraction start (sign ++ ['0']) rest := by
  rw [scanWhole, hrest.takeWhile, if_pos rfl]

theorem scanNumber_integer {cs rest : List Char} {n : Int} (h : Integer cs n)
    (hrest : Stops Char.isDigit rest) (start : Nat) :
    scanNumber start (cs ++ rest) = scanFraction start cs rest := by
  cases h with
  | zero => exact scanWhole_zero hrest start []
  | positive h =>
      rw [scanNumber, scanWhole_leading h hrest, List.nil_append]
      intro tail hcs
      obtain ⟨d, ds, rfl, -, hd, -⟩ := h.cons_inv
      have hminus : d = '-' := (List.cons.inj hcs).1
      exact absurd (hminus ▸ hd) (by decide)
  | @negative ds h =>
      have hall := h.digits.2
      have hread := scanWhole_leading h hrest start ['-']
      obtain ⟨d, tail, rfl, hzero, hd, -⟩ := h.cons_inv
      rw [List.cons_append, scanNumber, takeWhile_append_of_stops hall hrest]
      · rw [if_neg (List.cons_ne_nil d tail), hread]
        rfl
      · intro ds' hds'
        exact hzero (List.cons.inj hds').1

theorem scanFraction_integer {rest : List Char} (hpoint : rest.head? ≠ some '.') (start : Nat)
    (whole : List Char) :
    scanFraction start whole rest = (.number (String.ofList whole), whole.length) := by
  rw [scanFraction]
  rintro tail rfl
  exact hpoint rfl

theorem scanFraction_digits {digits rest : List Char} (h : Digits digits) (hrest : Stops Char.isDigit rest)
    (start : Nat) (whole : List Char) :
    scanFraction start whole ('.' :: (digits ++ rest)) =
      (.number (String.ofList (whole ++ '.' :: digits)), (whole ++ '.' :: digits).length) := by
  rw [scanFraction, takeWhile_append_of_stops h.2 hrest, if_neg h.1, List.length_append, List.length_cons]
  congr 1
  omega

theorem scanFraction_noDigit {rest : List Char} (hrest : Stops Char.isDigit rest) (start : Nat)
    (whole : List Char) :
    scanFraction start whole ('.' :: rest) = failAt start (whole.length + 1) rest .noDigitAfterPoint := by
  rw [scanFraction, hrest.takeWhile, if_pos rfl]

/-- An integer starts with a digit or a minus. -/
theorem scan_integer {cs rest : List Char} {n : Int} (h : Integer cs n) (hrest : Stops Char.isDigit rest)
    (start : Nat) {c : Char} {tail : List Char} (hcs : cs ++ rest = c :: tail) :
    scan start c tail = scanFraction start cs rest := by
  rw [← scanNumber_integer h hrest start, hcs]
  cases h with
  | zero =>
      obtain ⟨rfl, rfl⟩ := List.cons.inj hcs
      exact scan_digit (by decide) start _
  | positive h =>
      obtain ⟨d, ds, rfl, -, hd, -⟩ := h.cons_inv
      obtain ⟨rfl, rfl⟩ := List.cons.inj hcs
      exact scan_digit hd start _
  | negative h =>
      obtain ⟨rfl, rfl⟩ := List.cons.inj hcs
      exact scan_minus start _

/-- A lexeme is read as a whole. -/
theorem scan_lexeme {kind : TokenKind} {text rest : List Char} (h : Lexeme kind text rest) (start : Nat)
    {c : Char} {tail : List Char} (htext : text ++ rest = c :: tail) :
    scan start c tail = (kind, text.length) := by
  cases h with
  | pipe | colon | dot =>
      rw [List.cons_append, List.cons.injEq] at htext
      obtain ⟨rfl, rfl⟩ := htext
      rfl
  | ident h hrest =>
      obtain ⟨d, name, rfl, hd, hname⟩ := h.cons_inv
      rw [List.cons_append, List.cons.injEq] at htext
      obtain ⟨rfl, rfl⟩ := htext
      have hall : ∀ e ∈ d :: name, isNameChar e = true := by
        intro e he
        rcases List.mem_cons.mp he with rfl | he
        · exact isNameChar_of_isNameStart hd
        · exact hname e he
      rw [scan_nameStart hd, scanIdent, ← List.cons_append, takeWhile_append_of_stops hall hrest]
  | integer h hrest hpoint => rw [scan_integer h hrest start htext, scanFraction_integer hpoint]
  | fraction h hrest =>
      obtain ⟨hwhole, hdigits⟩ := h
      rw [List.append_assoc, List.cons_append] at htext
      rw [scan_integer hwhole (stops_cons.mpr (by decide)) start htext, scanFraction_digits hdigits hrest]
  | string h =>
      rw [List.cons_append, List.cons.injEq] at htext
      obtain ⟨rfl, rfl⟩ := htext
      have hquote : Stops isTextChar ('"' :: rest) := stops_cons.mpr (by decide)
      rw [List.append_assoc, List.singleton_append, scan_quote, scanString,
        takeWhile_append_of_stops h hquote, dropWhile_append_of_stops h hquote]
      simp

/-- A malformed lexeme is an error at the character where it breaks off. -/
theorem scan_malformed {cause : SyntaxError.Cause} {text rest : List Char}
    (h : Malformed cause text rest) (start : Nat) {c : Char} {tail : List Char}
    (htext : text ++ rest = c :: tail) : scan start c tail = failAt start text.length rest cause := by
  cases h with
  | stray hc h =>
      obtain ⟨rfl, rfl⟩ := List.cons.inj htext
      exact scan_stray h start _
  | zeroAfterMinus =>
      rw [List.cons_append, List.cons.injEq] at htext
      obtain ⟨rfl, rfl⟩ := htext
      exact scan_minus start _
  | noDigitAfterMinus h =>
      rw [List.cons_append, List.cons.injEq] at htext
      obtain ⟨rfl, rfl⟩ := htext
      rw [scan_minus, scanNumber]
      · rw [List.nil_append, h.takeWhile, if_pos rfl]
        rfl
      · rintro cs rfl
        exact absurd (stops_cons.mp h) (by decide)
  | @leadingZero d rest h =>
      rw [List.cons_append, List.cons.injEq] at htext
      obtain ⟨rfl, rfl⟩ := htext
      rw [scan_digit (by decide)]
      show scanWhole start [] ('0' :: d :: rest) = _
      rw [scanWhole, List.takeWhile_cons, if_pos h, if_neg (List.cons_ne_nil _ _)]
      rfl
  | noDigitAfterPoint hwhole h =>
      rw [List.append_assoc, List.singleton_append] at htext
      rw [scan_integer hwhole (stops_cons.mpr (by decide)) start htext, scanFraction_noDigit h,
        List.length_append, List.length_singleton]
  | openString h =>
      rw [List.cons_append, List.cons.injEq] at htext
      obtain ⟨rfl, rfl⟩ := htext
      rw [scan_quote, scanString, takeWhile_append_of_stops h Stops.nil,
        dropWhile_append_of_stops h Stops.nil, List.length_cons]
  | @badStringCharacter cs rest d h hd hquote =>
      rw [List.cons_append, List.cons.injEq] at htext
      obtain ⟨rfl, rfl⟩ := htext
      have hstop : Stops isTextChar (d :: rest) := stops_cons.mpr hd
      rw [scan_quote, scanString, takeWhile_append_of_stops h hstop, dropWhile_append_of_stops h hstop]
      simp only [if_neg hquote, List.length_cons]

/-! ### Every text starts with one -/

theorem integer_or_malformed {c : Char} (h : c = '-' ∨ c.isDigit = true) (cs : List Char) :
    (∃ whole rest n, c :: cs = whole ++ rest ∧ Integer whole n ∧ Stops Char.isDigit rest) ∨
      ∃ cause text rest, c :: cs = text ++ rest ∧ Malformed cause text rest := by
  by_cases hminus : c = '-'
  · subst hminus
    obtain ⟨digits, rest, rfl, hdigits, hrest⟩ := exists_span Char.isDigit cs
    cases digits with
    | nil => exact Or.inr ⟨_, ['-'], rest, rfl, .noDigitAfterMinus hrest⟩
    | cons d ds =>
        by_cases hd : d = '0'
        · subst hd
          exact Or.inr ⟨_, ['-'], _, rfl, .zeroAfterMinus _⟩
        · exact Or.inl ⟨'-' :: d :: ds, rest, _, rfl, .negative ⟨hd, hdigits⟩, hrest⟩
  · have hc : c.isDigit = true := h.resolve_left hminus
    obtain ⟨digits, rest, rfl, hdigits, hrest⟩ := exists_span Char.isDigit cs
    by_cases hzero : c = '0'
    · subst hzero
      cases digits with
      | nil => exact Or.inl ⟨['0'], rest, 0, rfl, .zero, hrest⟩
      | cons d ds =>
          exact Or.inr ⟨_, ['0'], _, rfl, .leadingZero (hdigits d List.mem_cons_self)⟩
    · refine Or.inl ⟨c :: digits, rest, _, rfl, .positive ⟨hzero, ?_⟩, hrest⟩
      intro d hd
      rcases List.mem_cons.mp hd with rfl | hd
      · exact hc
      · exact hdigits d hd

theorem number_or_malformed {c : Char} (h : c = '-' ∨ c.isDigit = true) (cs : List Char) :
    (∃ kind text rest, c :: cs = text ++ rest ∧ Lexeme kind text rest) ∨
      ∃ cause text rest, c :: cs = text ++ rest ∧ Malformed cause text rest := by
  rcases integer_or_malformed h cs with ⟨whole, rest, n, heq, hwhole, hrest⟩ | hbad
  · by_cases hpoint : rest.head? = some '.'
    · obtain ⟨tail, rfl⟩ := List.head?_eq_some_iff.mp hpoint
      obtain ⟨digits, behind, rfl, hdigits, hbehind⟩ := exists_span Char.isDigit tail
      by_cases hnil : digits = []
      · subst hnil
        refine Or.inr ⟨_, whole ++ ['.'], behind, ?_, .noDigitAfterPoint hwhole hbehind⟩
        rw [heq, List.append_assoc]
        rfl
      · refine Or.inl ⟨_, whole ++ '.' :: digits, behind, ?_, .fraction ⟨hwhole, hnil, hdigits⟩ hbehind⟩
        rw [heq, List.append_assoc]
        rfl
    · exact Or.inl ⟨_, whole, rest, heq, .integer hwhole hrest hpoint⟩
  · exact Or.inr hbad

theorem string_or_malformed (cs : List Char) :
    (∃ kind text rest, '"' :: cs = text ++ rest ∧ Lexeme kind text rest) ∨
      ∃ cause text rest, '"' :: cs = text ++ rest ∧ Malformed cause text rest := by
  obtain ⟨content, rest, rfl, hcontent, hrest⟩ := exists_span isTextChar cs
  cases rest with
  | nil => exact Or.inr ⟨_, '"' :: content, [], rfl, .openString hcontent⟩
  | cons c rest =>
      by_cases hc : c = '"'
      · subst hc
        refine Or.inl ⟨_, '"' :: (content ++ ['"']), rest, ?_, .string hcontent rest⟩
        rw [List.cons_append, List.append_assoc]
        rfl
      · exact Or.inr ⟨_, '"' :: content, c :: rest, rfl,
          .badStringCharacter hcontent (stops_cons.mp hrest) hc⟩

/-- What stands in front of a text that does not start with a space. -/
theorem lexeme_or_malformed {c : Char} (hc : c ≠ ' ') (cs : List Char) :
    (∃ kind text rest, c :: cs = text ++ rest ∧ Lexeme kind text rest) ∨
      ∃ cause text rest, c :: cs = text ++ rest ∧ Malformed cause text rest := by
  by_cases hstarts : startsToken c = true
  · simp only [startsToken, Bool.or_eq_true, List.contains_eq_mem, decide_eq_true_eq, List.mem_cons,
      List.not_mem_nil, or_false] at hstarts
    rcases hstarts with ((rfl | rfl | rfl | rfl | rfl) | hdigit) | hname
    · exact Or.inl ⟨_, ['|'], cs, rfl, .pipe cs⟩
    · exact Or.inl ⟨_, [':'], cs, rfl, .colon cs⟩
    · exact Or.inl ⟨_, ['.'], cs, rfl, .dot cs⟩
    · exact string_or_malformed cs
    · exact number_or_malformed (Or.inl rfl) cs
    · exact number_or_malformed (Or.inr hdigit) cs
    · obtain ⟨name, rest, rfl, hchars, hrest⟩ := exists_span isNameChar cs
      exact Or.inl ⟨_, c :: name, rest, rfl, .ident ⟨hname, hchars⟩ hrest⟩
  · exact Or.inr ⟨_, [], c :: cs, rfl, .stray hc (Bool.eq_false_iff.mpr hstarts)⟩

/-! ### Tokens -/

/-- What was found before stays in front, and does not matter for what comes behind it. -/
theorem tokensFrom_eq_append (position : Nat) (cs : List Char) (found : List Token) :
    tokensFrom position cs found =
      (found.reverse ++ (tokensFrom position cs []).1, (tokensFrom position cs []).2) := by
  induction hn : cs.length using Nat.strongRecOn generalizing position cs found with
  | ind n ih =>
      cases cs with
      | nil => simp [tokensFrom]
      | cons c cs =>
          rw [tokensFrom, tokensFrom]
          by_cases hc : c = ' '
          · rw [if_pos hc, if_pos hc]
            exact ih cs.length (by simp [← hn]) (position + 1) cs found rfl
          · rw [if_neg hc, if_neg hc]
            have hlt : (cs.drop ((scan position c cs).2 - 1)).length < n := by
              rw [← hn, List.length_drop, List.length_cons]
              omega
            dsimp only
            rw [ih _ hlt _ _ (_ :: found) rfl, ih _ hlt _ _ [_] rfl, List.reverse_cons, List.append_assoc]
            rfl

/-- The tokens of a text that starts at the offset. -/
def tokensAt (position : Nat) (cs : List Char) : List Token :=
  (tokensFrom position cs []).1

/-- The lexer that is left behind the tokens of a text that starts at the offset. -/
def lexerBehind (position : Nat) (cs : List Char) : Lexer :=
  (tokensFrom position cs []).2

theorem tokens_eq_tokensAt (source : String) : tokens source = tokensAt 0 source.toList := rfl

theorem tokenize_eq (lexer : Lexer) :
    lexer.tokenize = (tokensAt lexer.position lexer.rest, lexerBehind lexer.position lexer.rest) := rfl

theorem tokensFrom_nil (position : Nat) :
    tokensFrom position [] [] = ([⟨.eof, position, position⟩], ⟨position, []⟩) := by
  simp [tokensFrom]

theorem tokensFrom_space (position : Nat) (cs : List Char) :
    tokensFrom position (' ' :: cs) [] = tokensFrom (position + 1) cs [] := by
  rw [tokensFrom, if_pos rfl]

theorem tokensFrom_cons {c : Char} (hc : c ≠ ' ') (position : Nat) (cs : List Char) :
    tokensFrom position (c :: cs) [] =
      (⟨(scan position c cs).1, position, position + (scan position c cs).2⟩ ::
          tokensAt (position + (scan position c cs).2) (cs.drop ((scan position c cs).2 - 1)),
        lexerBehind (position + (scan position c cs).2) (cs.drop ((scan position c cs).2 - 1))) := by
  rw [tokensFrom, if_neg hc]
  dsimp only
  rw [tokensFrom_eq_append]
  rfl

theorem tokensAt_nil (position : Nat) : tokensAt position [] = [⟨.eof, position, position⟩] :=
  congrArg Prod.fst (tokensFrom_nil position)

theorem tokensAt_space (position : Nat) (cs : List Char) :
    tokensAt position (' ' :: cs) = tokensAt (position + 1) cs :=
  congrArg Prod.fst (tokensFrom_space position cs)

theorem tokensAt_cons {c : Char} (hc : c ≠ ' ') (position : Nat) (cs : List Char) :
    tokensAt position (c :: cs) =
      ⟨(scan position c cs).1, position, position + (scan position c cs).2⟩ ::
        tokensAt (position + (scan position c cs).2) (cs.drop ((scan position c cs).2 - 1)) :=
  congrArg Prod.fst (tokensFrom_cons hc position cs)

/-- A scan takes a character at least, and none that is not there. -/
theorem taken_scan {c : Char} (hc : c ≠ ' ') (position : Nat) (cs : List Char) :
    0 < (scan position c cs).2 ∧ (scan position c cs).2 ≤ (c :: cs).length := by
  rcases lexeme_or_malformed hc cs with ⟨kind, text, rest, heq, h⟩ | ⟨cause, text, rest, heq, h⟩
  · obtain ⟨d, tail, rfl, -⟩ := h.cons_inv
    rw [scan_lexeme h position heq.symm, heq, List.length_append]
    exact ⟨Nat.succ_pos _, Nat.le_add_right _ _⟩
  · rw [scan_malformed h position heq.symm, heq, List.length_append]
    have hlength := congrArg List.length heq
    simp only [failAt, List.length_take, List.length_append, List.length_cons] at hlength ⊢
    omega

/-- At the end of the text nothing is left, and every character has been passed. -/
theorem lexerBehind_eq (position : Nat) (cs : List Char) : lexerBehind position cs = ⟨position + cs.length, []⟩ := by
  induction hn : cs.length using Nat.strongRecOn generalizing position cs with
  | ind n ih =>
      cases cs with
      | nil => rw [lexerBehind, tokensFrom_nil, ← hn, List.length_nil, Nat.add_zero]
      | cons c cs =>
          rw [List.length_cons] at hn
          by_cases hc : c = ' '
          · rw [hc, lexerBehind, tokensFrom_space]
            show lexerBehind _ _ = _
            rw [ih cs.length (by omega) (position + 1) cs rfl]
            congr 1
            omega
          · obtain ⟨hpos, hle⟩ := taken_scan hc position cs
            rw [List.length_cons] at hle
            have hrest : (cs.drop ((scan position c cs).2 - 1)).length = n - (scan position c cs).2 := by
              rw [List.length_drop]
              omega
            rw [lexerBehind, tokensFrom_cons hc]
            show lexerBehind _ _ = _
            rw [ih _ (by omega) _ _ hrest]
            congr 1
            omega

theorem tokensAt_spaces {gap : List Char} (h : Spaces gap) (position : Nat) (cs : List Char) :
    tokensAt position (gap ++ cs) = tokensAt (position + gap.length) cs := by
  induction gap generalizing position with
  | nil => rfl
  | cons c gap ih =>
      rw [h.eq_space, List.cons_append, tokensAt_space, ih h.tail, List.length_cons]
      congr 1
      omega

theorem tokensAt_of_spaces {gap : List Char} (h : Spaces gap) (position : Nat) :
    tokensAt position gap = [⟨.eof, position + gap.length, position + gap.length⟩] := by
  have htokens := tokensAt_spaces h position []
  rwa [List.append_nil, tokensAt_nil] at htokens

theorem tokensAt_lexeme {kind : TokenKind} {text rest : List Char} (h : Lexeme kind text rest)
    (position : Nat) :
    tokensAt position (text ++ rest) =
      ⟨kind, position, position + text.length⟩ :: tokensAt (position + text.length) rest := by
  obtain ⟨c, tail, rfl, hc⟩ := h.cons_inv
  have hscan : scan position c (tail ++ rest) = (kind, (c :: tail).length) := scan_lexeme h position rfl
  rw [List.cons_append, tokensAt_cons hc.ne_space, hscan, List.length_cons, Nat.add_sub_cancel, List.drop_left]

theorem tokensAt_pipe (position : Nat) (cs : List Char) :
    tokensAt position ('|' :: cs) = ⟨.pipe, position, position + 1⟩ :: tokensAt (position + 1) cs :=
  tokensAt_lexeme (.pipe cs) position

theorem tokensAt_colon (position : Nat) (cs : List Char) :
    tokensAt position (':' :: cs) = ⟨.colon, position, position + 1⟩ :: tokensAt (position + 1) cs :=
  tokensAt_lexeme (.colon cs) position

theorem tokensAt_dot (position : Nat) (cs : List Char) :
    tokensAt position ('.' :: cs) = ⟨.dot, position, position + 1⟩ :: tokensAt (position + 1) cs :=
  tokensAt_lexeme (.dot cs) position

/-- An error token takes the character it complains about. -/
theorem tokensAt_malformed {cause : SyntaxError.Cause} {text rest : List Char}
    (h : Malformed cause text rest) (position : Nat) :
    tokensAt position (text ++ rest) =
      ⟨.error ⟨position + text.length, rest.head?, cause⟩, position,
          position + (text.length + (rest.take 1).length)⟩ ::
        tokensAt (position + (text.length + (rest.take 1).length)) (rest.drop 1) := by
  obtain ⟨c, tail, htext, hspace⟩ := h.cons_inv
  have hdrop : tail.drop (text.length + (rest.take 1).length - 1) = rest.drop 1 := by
    cases text with
    | nil =>
        cases rest with
        | nil => cases htext
        | cons d rest => exact (List.cons.inj htext).2.symm
    | cons d text =>
        rw [List.cons_append, List.cons.injEq] at htext
        rw [← htext.2, List.length_cons, show text.length + 1 + (rest.take 1).length - 1 =
          text.length + (rest.take 1).length by omega, List.drop_append]
        cases rest with
        | nil => simp
        | cons e rest => simp
  rw [htext, tokensAt_cons hspace, scan_malformed h position htext]
  simp only [failAt, hdrop]

/-- The first token of a text that does not start with a space. -/
theorem exists_token {c : Char} (hc : c ≠ ' ') (position : Nat) (cs : List Char) :
    ∃ t ts, tokensAt position (c :: cs) = t :: ts ∧ t.start = position ∧
      (t.kind.StartsWith c ∨ ∃ e, t.kind = .error e) := by
  rcases lexeme_or_malformed hc cs with ⟨kind, text, rest, heq, h⟩ | ⟨cause, text, rest, heq, h⟩
  · obtain ⟨d, tail, rfl, hd⟩ := h.cons_inv
    obtain ⟨rfl, -⟩ := List.cons.inj heq
    exact ⟨_, _, by rw [heq, tokensAt_lexeme h], rfl, Or.inl hd⟩
  · exact ⟨_, _, by rw [heq, tokensAt_malformed h], rfl, Or.inr ⟨_, rfl⟩⟩

/-- The first token is of no kind whose lexemes start otherwise. -/
theorem kind_ne {t : Token} {c : Char} {kind : TokenKind}
    (ht : t.kind.StartsWith c ∨ ∃ e, t.kind = .error e) (hstarts : ¬kind.StartsWith c)
    (herror : ∀ e, kind ≠ .error e) : t.kind ≠ kind := by
  rintro rfl
  rcases ht with hc | ⟨e, he⟩
  · exact hstarts hc
  · exact herror e he

/-- What a text starts with, its spaces aside: the end, a lexeme, or a malformed one. -/
theorem front_cases (cs : List Char) :
    Spaces cs ∨
      (∃ gap kind text rest, cs = gap ++ (text ++ rest) ∧ Spaces gap ∧ Lexeme kind text rest) ∨
      ∃ gap cause text rest, cs = gap ++ (text ++ rest) ∧ Spaces gap ∧ Malformed cause text rest := by
  obtain ⟨gap, rest, rfl, hgap, hrest⟩ := exists_spaces_append cs
  cases rest with
  | nil => exact Or.inl (by rwa [List.append_nil])
  | cons c tail =>
      have hc : c ≠ ' ' := hrest c rfl
      rcases lexeme_or_malformed hc tail with ⟨kind, text, rest, heq, h⟩ | ⟨cause, text, rest, heq, h⟩
      · exact Or.inr (Or.inl ⟨gap, kind, text, rest, by rw [heq], hgap, h⟩)
      · exact Or.inr (Or.inr ⟨gap, cause, text, rest, by rw [heq], hgap, h⟩)

/-- Induction along a text, one lexeme or malformed one after another. A malformed one takes the character it
breaks off at. -/
@[elab_as_elim]
theorem text_induction {motive : List Char → Prop} (spaces : ∀ {cs : List Char}, Spaces cs → motive cs)
    (lexeme : ∀ {gap text rest : List Char} {kind : TokenKind}, Spaces gap → Lexeme kind text rest →
      motive rest → motive (gap ++ (text ++ rest)))
    (malformed : ∀ {gap text rest : List Char} {cause : SyntaxError.Cause}, Spaces gap →
      Malformed cause text rest → motive (rest.drop 1) → motive (gap ++ (text ++ rest)))
    (cs : List Char) : motive cs := by
  induction hn : cs.length using Nat.strongRecOn generalizing cs with
  | ind n ih =>
      rcases front_cases cs with hcs | ⟨gap, kind, text, rest, rfl, hgap, h⟩ |
        ⟨gap, cause, text, rest, rfl, hgap, h⟩
      · exact spaces hcs
      · refine lexeme hgap h (ih rest.length ?_ rest rfl)
        obtain ⟨c, tail, rfl, -⟩ := h.cons_inv
        rw [← hn]
        simp only [List.length_append, List.length_cons]
        omega
      · refine malformed hgap h (ih (rest.drop 1).length ?_ (rest.drop 1) rfl)
        obtain ⟨c, tail, htext, -⟩ := h.cons_inv
        have hlength := congrArg List.length htext
        rw [← hn]
        simp only [List.length_append, List.length_drop, List.length_cons] at hlength ⊢
        omega

end Lexer

end TurtleChain
