import TurtleChain.Proofs.Chain.Place

/-! Why a reader that stands at a place of a chain refuses a text: the first character that cannot come next,
an end that comes too early, an integer out of range, or a malformed number or string where nothing of the
kind can stand. Only the last is reported behind the character that cannot come next, and the tokens of the
text tell it from the others: a token starts there that breaks off later. -/

namespace TurtleChain

open Grammar Lexer

/-- The cause is about the size of a number and not about its spelling. -/
def SyntaxError.Cause.concernsRange : Cause → Bool
  | integerOutOfRange _ => true
  | _ => false

/-! ### Whole tokens -/

namespace Lexer

/-- What the token is made of stands in the text, which starts at the offset. -/
inductive StandsIn (t : Token) (position : Nat) (cs : List Char) : Prop where
  | eof (hkind : t.kind = .eof) (hstart : t.start = position + cs.length)
  | lexeme {front text rest : List Char} (hcs : cs = front ++ (text ++ rest))
      (hstart : t.start = position + front.length) (h : Lexeme t.kind text rest)
  | malformed {front text rest : List Char} {cause : SyntaxError.Cause} (hcs : cs = front ++ (text ++ rest))
      (hstart : t.start = position + front.length) (h : Malformed cause text rest)
      (hkind : t.kind = .error ⟨t.start + text.length, rest.head?, cause⟩)

theorem StandsIn.append {t : Token} {position : Nat} {front cs : List Char}
    (h : StandsIn t (position + front.length) cs) : StandsIn t position (front ++ cs) := by
  cases h with
  | eof hkind hstart => exact .eof hkind (by rw [hstart, List.length_append, Nat.add_assoc])
  | lexeme hcs hstart h =>
      rw [Nat.add_assoc, ← List.length_append] at hstart
      exact .lexeme (by rw [hcs, List.append_assoc]) hstart h
  | malformed hcs hstart h hkind =>
      rw [Nat.add_assoc, ← List.length_append] at hstart
      exact .malformed (by rw [hcs, List.append_assoc]) hstart h hkind

theorem standsIn_of_mem {position : Nat} {cs : List Char} {t : Token} (ht : t ∈ tokensAt position cs) :
    StandsIn t position cs := by
  induction cs using text_induction generalizing position with
  | spaces hcs =>
      rw [tokensAt_of_spaces hcs, List.mem_singleton] at ht
      subst ht
      exact .eof rfl rfl
  | lexeme hgap h ih =>
      rw [tokensAt_spaces hgap, tokensAt_lexeme h, List.mem_cons] at ht
      rcases ht with rfl | ht
      · exact .lexeme rfl rfl h
      · exact .append (.append (ih ht))
  | @malformed gap text rest cause hgap h ih =>
      rw [tokensAt_spaces hgap, tokensAt_malformed h, List.mem_cons] at ht
      rcases ht with rfl | ht
      · exact .malformed rfl rfl h rfl
      · have htail := ih ht
        rw [← Nat.add_assoc] at htail
        rw [← List.take_append_drop 1 rest]
        exact .append (.append (.append htail))

theorem le_start {position : Nat} {cs : List Char} {t : Token} (ht : t ∈ tokensAt position cs) :
    position ≤ t.start := by
  cases standsIn_of_mem ht with
  | eof _ hstart => omega
  | lexeme _ hstart => omega
  | malformed _ hstart => omega

/-- The lexer takes the text off as spaces and whole tokens, in front of the rest. -/
def Passes (position : Nat) (front rest : List Char) : Prop :=
  ∃ ts, tokensAt position (front ++ rest) = ts ++ tokensAt (position + front.length) rest ∧
    ∀ t ∈ ts, t.start < position + front.length

theorem passes_spaces {gap : List Char} (h : Spaces gap) (position : Nat) (rest : List Char) :
    Passes position gap rest :=
  ⟨[], tokensAt_spaces h position rest, by simp⟩

theorem passes_lexeme {kind : TokenKind} {text rest : List Char} (h : Lexeme kind text rest)
    (position : Nat) : Passes position text rest := by
  refine ⟨[⟨kind, position, position + text.length⟩], tokensAt_lexeme h position, ?_⟩
  intro t ht
  obtain ⟨c, tail, rfl, -⟩ := h.cons_inv
  rw [List.mem_singleton.mp ht]
  exact Nat.lt_add_of_pos_right (Nat.succ_pos tail.length)

theorem Passes.append {position : Nat} {front front' rest : List Char}
    (h : Passes position front (front' ++ rest)) (h' : Passes (position + front.length) front' rest) :
    Passes position (front ++ front') rest := by
  obtain ⟨ts, htokens, hts⟩ := h
  obtain ⟨ts', htokens', hts'⟩ := h'
  have hlength : position + (front ++ front').length = position + front.length + front'.length := by
    rw [List.length_append, Nat.add_assoc]
  refine ⟨ts ++ ts', ?_, fun t ht => ?_⟩
  · rw [List.append_assoc, htokens, htokens', hlength, List.append_assoc]
  · rw [hlength]
    rcases List.mem_append.mp ht with ht | ht
    · exact Nat.lt_add_right _ (hts t ht)
    · exact hts' t ht

/-- A malformed token starts at the offset and breaks off behind its first character. -/
def BreaksLater (ts : List Token) (n : Nat) : Prop :=
  ∃ t ∈ ts, t.start = n ∧ ∃ e, t.kind = .error e ∧ n < e.offset

theorem Passes.mem {position : Nat} {front rest : List Char} {t : Token} (h : Passes position front rest)
    (ht : t ∈ tokensAt (position + front.length) rest) : t ∈ tokensAt position (front ++ rest) := by
  obtain ⟨ts, htokens, -⟩ := h
  rw [htokens]
  exact List.mem_append_right ts ht

theorem Passes.breaksLater {position m : Nat} {front rest : List Char} (h : Passes position front rest)
    (hlater : BreaksLater (tokensAt position (front ++ rest)) (position + front.length + m)) :
    BreaksLater (tokensAt (position + front.length) rest) (position + front.length + m) := by
  obtain ⟨ts, htokens, hts⟩ := h
  obtain ⟨t, ht, hstart, hkind⟩ := hlater
  rw [htokens] at ht
  rcases List.mem_append.mp ht with ht | ht
  · have hlt := hts t ht
    omega
  · exact ⟨t, ht, hstart, hkind⟩

theorem not_breaksLater_space (position : Nat) (cs : List Char) :
    ¬BreaksLater (tokensAt position (' ' :: cs)) position := by
  rintro ⟨t, ht, hstart, -⟩
  rw [tokensAt_space] at ht
  have hle := le_start ht
  omega

theorem not_breaksLater_lexeme {kind : TokenKind} {text rest : List Char} (h : Lexeme kind text rest)
    (position : Nat) : ¬BreaksLater (tokensAt position (text ++ rest)) position := by
  rintro ⟨t, ht, hstart, e, hkind, -⟩
  rw [tokensAt_lexeme h, List.mem_cons] at ht
  obtain ⟨c, tail, rfl, -⟩ := h.cons_inv
  rcases ht with rfl | ht
  · cases h <;> cases hkind
  · have hle := le_start ht
    rw [List.length_cons] at hle
    omega

/-- No token starts at the character a malformed one breaks off at, unless that is its first. -/
theorem not_breaksLater_malformed {cause : SyntaxError.Cause} {text rest : List Char} {c : Char}
    (h : Malformed cause text (c :: rest)) (position : Nat) :
    ¬BreaksLater (tokensAt position (text ++ c :: rest)) (position + text.length) := by
  rintro ⟨t, ht, hstart, e, hkind, hlt⟩
  rw [tokensAt_malformed h, List.mem_cons] at ht
  rcases ht with rfl | ht
  · cases hkind
    exact Nat.lt_irrefl _ hlt
  · have hle := le_start ht
    simp only [List.take_succ_cons, List.take_zero, List.length_singleton] at hle
    omega

end Lexer

namespace Place

/-- A reader that stands at the place reports the error for the text, which starts at the offset. -/
inductive Rejects (q : Place) (position : Nat) (cs : List Char) : SyntaxError → Prop where
  | stuck {front rest : List Char} {c : Char} {q' : Place} {cause : SyntaxError.Cause}
      (hcs : cs = front ++ c :: rest) (hrun : q.run front = some q') (hstep : q'.step c = none)
      (hlater : ¬BreaksLater (tokensAt position cs) (position + front.length))
      (hcause : cause.concernsRange = false) : Rejects q position cs ⟨position + front.length, some c, cause⟩
  | ended {q' : Place} {cause : SyntaxError.Cause} (hrun : q.run cs = some q')
      (hend : q'.accepting = false) (hcause : cause.concernsRange = false) :
      Rejects q position cs ⟨position + cs.length, none, cause⟩
  | range {front literal rest : List Char} {n : Int} {t : Token} (hcs : cs = front ++ (literal ++ rest))
      (hrun : q.run front = some argument) (hliteral : Integer literal n) (hn : fitsInt64 n = false)
      (hrest : Stops Char.isDigit rest) (hpoint : rest.head? ≠ some '.')
      (ht : t ∈ tokensAt position cs) (hstart : t.start = position + front.length)
      (hkind : t.kind = .number (String.ofList literal)) :
      Rejects q position cs
        ⟨position + front.length, literal.head?, .integerOutOfRange (String.ofList literal)⟩
  | misplaced {front text rest : List Char} {q' : Place} {t : Token} {cause : SyntaxError.Cause}
      (hcs : cs = front ++ (text ++ rest)) (hrun : q.run front = some q')
      (hstep : ∀ c ∈ text.head?, q'.step c = none) (htext : text ≠ []) (ht : t ∈ tokensAt position cs)
      (hstart : t.start = position + front.length)
      (hkind : t.kind = .error ⟨position + (front.length + text.length), rest.head?, cause⟩)
      (hcause : cause.concernsRange = false) :
      Rejects q position cs ⟨position + (front.length + text.length), rest.head?, cause⟩

theorem Rejects.after {q q' : Place} {position : Nat} {front cs : List Char} {e : SyntaxError}
    (hrun : q.run front = some q') (hpasses : Passes position front cs)
    (h : q'.Rejects (position + front.length) cs e) : q.Rejects position (front ++ cs) e := by
  cases h with
  | @stuck front' _ _ _ _ hcs h hstep hlater hcause =>
      have hlater' : ¬BreaksLater (tokensAt position (front ++ cs))
          (position + front.length + front'.length) := fun hlater' => hlater (hpasses.breaksLater hlater')
      rw [Nat.add_assoc, ← List.length_append] at hlater' ⊢
      exact .stuck (by rw [hcs, List.append_assoc]) (by rw [run_append_of_run hrun, h]) hstep hlater' hcause
  | ended h hend hcause =>
      rw [Nat.add_assoc, ← List.length_append]
      exact .ended (by rw [run_append_of_run hrun, h]) hend hcause
  | range hcs h hliteral hn hrest hpoint ht hstart hkind =>
      rw [Nat.add_assoc, ← List.length_append] at hstart ⊢
      exact .range (by rw [hcs, List.append_assoc]) (by rw [run_append_of_run hrun, h]) hliteral hn hrest
        hpoint (hpasses.mem ht) hstart hkind
  | misplaced hcs h hstep htext ht hstart hkind hcause =>
      rw [Nat.add_assoc, ← Nat.add_assoc front.length, ← List.length_append] at hkind ⊢
      rw [Nat.add_assoc, ← List.length_append] at hstart
      exact .misplaced (by rw [hcs, List.append_assoc]) (by rw [run_append_of_run hrun, h]) hstep htext
        (hpasses.mem ht) hstart hkind hcause

/-- The text goes on with a pipe, or with nothing that can come next. -/
structure Ready (q : Place) (rest : List Char) : Prop where
  accepting : q.accepting = true
  ne_space : ∀ c ∈ rest.head?, c ≠ ' '
  step : ∀ c ∈ rest.head?, q.step c = if c = '|' then some opening else none

/-- Behind the last character of an argument, the spaces that follow are skipped. -/
theorem exists_ready {q q' : Place} {front tail : List Char} (hrun : q.run front = some q')
    (haccepting : q'.accepting = true) (hstep : ∀ c ∈ tail.head?, q'.step c = afterArgument c) :
    ∃ gap rest q'', tail = gap ++ rest ∧ Spaces gap ∧ q.run (front ++ gap) = some q'' ∧ q''.Ready rest := by
  obtain ⟨gap, rest, rfl, hgap, hrest⟩ := exists_spaces_append tail
  have hafter : ∀ c ∈ rest.head?, afterArgument c = if c = '|' then some opening else none := by
    intro c hc
    rw [afterArgument, if_neg (hrest c hc)]
  cases gap with
  | nil =>
      refine ⟨[], rest, q', rfl, hgap, by rw [List.append_nil, hrun], haccepting, hrest, ?_⟩
      intro c hc
      rw [hstep c hc, hafter c hc]
  | cons c gap =>
      refine ⟨c :: gap, rest, behindArgument, rfl, hgap, ?_, rfl, hrest, hafter⟩
      have hspace : q'.step ' ' = some behindArgument := hstep ' ' (by rw [hgap.eq_space]; rfl)
      rw [run_append_of_run hrun, hgap.eq_space, run_cons hspace]
      exact run_spaces hgap.tail rfl

/-- Behind a name, the spaces that follow are skipped. -/
theorem exists_ready_name {cs : List Char} (hcs : Stops isNameChar cs) :
    ∃ gap rest q, cs = gap ++ rest ∧ Spaces gap ∧ name.run gap = some q ∧ q.accepting = true ∧
      (∀ c ∈ rest.head?, c ≠ ' ') ∧ ∀ c ∈ rest.head?, q.step c = afterName c := by
  obtain ⟨gap, rest, rfl, hgap, hrest⟩ := exists_spaces_append cs
  cases gap with
  | nil =>
      refine ⟨[], rest, name, rfl, hgap, rfl, rfl, hrest, ?_⟩
      intro c hc
      rw [step, hcs c hc, if_neg Bool.false_ne_true]
  | cons c gap =>
      refine ⟨c :: gap, rest, behindName, rfl, hgap, ?_, rfl, hrest, fun _ _ => rfl⟩
      have hspace : name.step ' ' = some behindName := by decide
      rw [hgap.eq_space, run_cons hspace]
      exact run_spaces hgap.tail rfl

end Place

/-! ### Rejected tokens -/

theorem Lexer.Malformed.concernsRange {cause : SyntaxError.Cause} {text rest : List Char}
    (h : Malformed cause text rest) : cause.concernsRange = false := by
  cases h <;> rfl

/-- A token that is not wanted is reported at its first character. -/
theorem errorAt_lexeme {kind : TokenKind} {text rest : List Char} (h : Lexeme kind text rest)
    (start stop : Nat) (cause : SyntaxError.Cause) :
    Token.errorAt ⟨kind, start, stop⟩ cause = ⟨start, text.head?, cause⟩ := by
  cases h with
  | ident | integer | fraction => simp [Token.errorAt, TokenKind.firstChar?]
  | _ => rfl

namespace Place

/-- A token is refused where its first character cannot come next. -/
theorem rejects_token {q : Place} {c : Char} {tail : List Char} {t : Token} {ts : List Token}
    {cause : SyntaxError.Cause} {position : Nat} (hc : c ≠ ' ') (hstep : q.step c = none)
    (hcause : cause.concernsRange = false) (htokens : tokensAt position (c :: tail) = t :: ts) :
    q.Rejects position (c :: tail) (t.errorAt cause) := by
  have ht : t ∈ tokensAt position (c :: tail) := by
    rw [htokens]
    exact List.mem_cons_self
  rcases lexeme_or_malformed hc tail with ⟨kind, text, rest, heq, h⟩ | ⟨cause', text, rest, heq, h⟩
  · have hlater := not_breaksLater_lexeme h position
    rw [← heq] at hlater
    rw [heq, tokensAt_lexeme h] at htokens
    obtain ⟨rfl, -⟩ := List.cons.inj htokens
    obtain ⟨d, text, rfl, -⟩ := h.cons_inv
    obtain ⟨rfl, rfl⟩ := List.cons.inj heq
    rw [errorAt_lexeme h]
    exact .stuck rfl (run_nil q) hstep hlater hcause
  · cases text with
    | nil =>
        rw [List.nil_append] at heq
        subst heq
        have hlater := not_breaksLater_malformed h position
        rw [show c :: tail = [] ++ c :: tail from rfl, tokensAt_malformed h] at htokens
        obtain ⟨rfl, -⟩ := List.cons.inj htokens
        exact .stuck rfl (run_nil q) hstep hlater h.concernsRange
    | cons d text =>
        obtain ⟨hd, -⟩ := List.cons.inj heq
        subst hd
        rw [heq] at ht htokens ⊢
        rw [tokensAt_malformed h] at htokens
        obtain ⟨rfl, -⟩ := List.cons.inj htokens
        have hhead : ∀ d ∈ (c :: text).head?, q.step d = none := by
          rintro d hd
          cases hd
          exact hstep
        rw [show (position + (c :: text).length) = position + (([] : List Char).length + (c :: text).length) by
          rw [List.length_nil, Nat.zero_add]] at ht ⊢
        exact .misplaced rfl (run_nil q) hhead (List.cons_ne_nil c text) ht rfl rfl h.concernsRange

/-- Behind a colon a malformed number or string is read up to where it breaks off. -/
theorem argument_rejects_malformed {text rest : List Char} {cause : SyntaxError.Cause}
    (h : Malformed cause text rest) (position : Nat) :
    argument.Rejects position (text ++ rest) ⟨position + text.length, rest.head?, cause⟩ := by
  have hbreak : ∀ {q : Place}, argument.run text = some q → q.accepting = false →
      (∀ c ∈ rest.head?, q.step c = none) →
      argument.Rejects position (text ++ rest) ⟨position + text.length, rest.head?, cause⟩ := by
    intro q hrun hend hstep
    cases rest with
    | nil =>
        rw [List.append_nil]
        exact .ended hrun hend h.concernsRange
    | cons c rest =>
        exact .stuck rfl hrun (hstep c rfl) (not_breaksLater_malformed h position) h.concernsRange
  cases h with
  | @stray c rest hc hstarts =>
      refine .stuck rfl rfl ?_ (not_breaksLater_malformed (.stray hc hstarts) position) rfl
      simp only [startsToken, Bool.or_eq_false_iff, List.contains_eq_mem, decide_eq_false_iff_not,
        List.mem_cons, List.not_mem_nil, or_false, not_or] at hstarts
      obtain ⟨⟨⟨-, -, -, hquote, hminus⟩, hdigit⟩, hname⟩ := hstarts
      have hzero : c ≠ '0' := (ne_of_class (by decide) hdigit).symm
      simp [step, hc, hquote, hminus, hzero, hdigit, hname]
  | zeroAfterMinus =>
      apply hbreak (q := minus) (by decide) rfl
      rintro c hc
      cases hc
      decide
  | noDigitAfterMinus hrest =>
      refine hbreak (q := minus) (by decide) rfl ?_
      intro c hc
      rw [step, hrest c hc, if_neg (by simp)]
  | @leadingZero d rest hd =>
      have hpoint : d ≠ '.' := ne_of_class hd (by decide)
      have hspace : d ≠ ' ' := ne_of_class hd (by decide)
      have hpipe : d ≠ '|' := ne_of_class hd (by decide)
      have hrun : argument.run ['0'] = some zero := by decide
      refine .stuck rfl hrun ?_ (not_breaksLater_malformed (.leadingZero hd) position) rfl
      rw [step, if_neg hpoint, afterArgument, if_neg hspace, if_neg hpipe]
  | noDigitAfterPoint hwhole hrest =>
      refine hbreak (run_integer_point hwhole) rfl ?_
      intro c hc
      rw [step, hrest c hc, if_neg Bool.false_ne_true]
  | openString hcs => exact hbreak (run_text hcs) rfl (by simp)
  | @badStringCharacter cs rest c hcs hc hquote =>
      apply hbreak (run_text hcs) rfl
      rintro d hd
      cases hd
      rw [step, if_neg hquote, hc, if_neg Bool.false_ne_true]

end Place

end TurtleChain
