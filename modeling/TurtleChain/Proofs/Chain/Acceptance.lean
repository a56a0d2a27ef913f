import TurtleChain.Proofs.Chain.Reading

/-! The parser accepts exactly the texts that the grammar derives, and reads each of them as the operations of
its derivation. Where a part of a chain ends, a space, a pipe or the end of the text follows, so every lexeme
in it is as long as the grammar says. -/

namespace TurtleChain

open Grammar Lexer

namespace Parser

/-- A text that may follow an argument. -/
def Delimited (rest : List Char) : Prop :=
  ∀ c ∈ rest.head?, c = ' ' ∨ c = '|'

theorem Delimited.stops {p : Char → Bool} {rest : List Char} (h : Delimited rest) (hspace : p ' ' = false)
    (hpipe : p '|' = false) : Stops p rest := by
  intro c hc
  rcases h c hc with rfl | rfl
  · exact hspace
  · exact hpipe

theorem Delimited.head_ne_dot {rest : List Char} (h : Delimited rest) : rest.head? ≠ some '.' := by
  intro hdot
  rcases h '.' hdot with h | h <;> cases h

theorem delimited_append {gap rest : List Char} (hgap : Spaces gap) (hrest : ∀ c ∈ rest.head?, c = '|') :
    Delimited (gap ++ rest) := by
  intro c hc
  cases gap with
  | nil => exact Or.inr (hrest c hc)
  | cons d gap =>
      rw [List.cons_append, List.head?_cons, hgap.eq_space] at hc
      cases hc
      exact Or.inl rfl

theorem fitsInt64_toInt (n : Int64) : fitsInt64 n.toInt = true := by
  have hle := Int64.le_toInt n
  have hlt := Int64.toInt_lt n
  simp only [fitsInt64, int64Limit, Bool.and_eq_true, decide_eq_true_eq]
  omega

theorem argument_value {value rest : List Char} {arg : Arg} (h : Value value arg) (hrest : Delimited rest)
    (position : Nat) :
    argument (tokensAt position (value ++ rest)) = (.ok arg, tokensAt (position + value.length) rest) := by
  have hchars : Stops isNameChar rest := hrest.stops (by decide) (by decide)
  have hdigits : Stops Char.isDigit rest := hrest.stops (by decide) (by decide)
  cases h with
  | int h =>
      rw [tokensAt_lexeme (.integer h hdigits hrest.head_ne_dot), argument_number, spelled_integer h,
        if_pos (fitsInt64_toInt _), Int64.ofInt_toInt]
  | float h hx =>
      obtain ⟨x, hread, hspelled⟩ := spelled_fraction h position
      rw [hread] at hx
      cases hx
      rw [tokensAt_lexeme (.fraction h hdigits), argument_number, hspelled]
  | @member object field hobject hfield =>
      rw [List.append_assoc, List.cons_append,
        tokensAt_lexeme (.ident hobject (stops_cons.mpr (by decide))), tokensAt_dot,
        tokensAt_lexeme (.ident hfield hchars), argument]
      simp only [and_self, if_true, Parser.field, ne_eq, not_true_eq_false, if_false, List.length_append,
        List.length_cons]
      congr 2
      omega
  | ident h =>
      obtain ⟨d, ds, hd, -⟩ := exists_tokensAt_cons (position + value.length) rest
      have hnot : ¬(d.kind = .dot ∧ d.start = position + value.length) :=
        fun hdot => hrest.head_ne_dot (head_eq_dot hd hdot.1 hdot.2)
      rw [tokensAt_lexeme (.ident h hchars), hd, argument_ident ds hnot]
  | text h =>
      rw [tokensAt_lexeme (.string h rest)]
      rfl

/-- A statement is read up to the pipe behind it, or to the end. -/
theorem statements_statement {text gap rest : List Char} {op : Operation} (h : Statement text op)
    (hgap : Spaces gap) (hrest : ∀ c ∈ rest.head?, c = '|') (found : List Operation) (position : Nat) :
    statements found (tokensAt position (text ++ (gap ++ rest))) =
      behind (op :: found) (tokensAt (position + text.length) (gap ++ rest)) := by
  have hdelimited := delimited_append hgap hrest
  cases h with
  | bare hname =>
      rw [tokensAt_lexeme (.ident hname (hdelimited.stops (by decide) (by decide)))]
      apply statements_ident rfl
      rw [tokensAt_spaces hgap]
      cases rest with
      | nil =>
          rw [tokensAt_nil]
          exact argument?_of_ne_colon [] (by simp)
      | cons c tail =>
          have hpipe : c = '|' := hrest c rfl
          subst hpipe
          rw [tokensAt_pipe]
          exact argument?_of_ne_colon _ (by simp)
  | @applied name gap₁ gap₂ value arg hname hgap₁ hgap₂ hvalue =>
      have hstops : Stops isNameChar (gap₁ ++ ':' :: (gap₂ ++ (value ++ (gap ++ rest)))) := by
        cases gap₁ with
        | nil => exact stops_cons.mpr (by decide)
        | cons c gap₁ =>
            rw [hgap₁.eq_space]
            exact stops_cons.mpr (by decide)
      have htext : name ++ (gap₁ ++ ':' :: (gap₂ ++ value)) ++ (gap ++ rest) =
          name ++ (gap₁ ++ ':' :: (gap₂ ++ (value ++ (gap ++ rest)))) := by
        simp only [List.append_assoc, List.cons_append]
      rw [htext, tokensAt_lexeme (.ident hname hstops)]
      apply statements_ident rfl
      rw [tokensAt_spaces hgap₁, tokensAt_colon, argument?, if_pos rfl, tokensAt_spaces hgap₂,
        argument_value hvalue hdelimited]
      simp only [List.length_append, List.length_cons]
      congr 2
      omega

theorem not_spaces_statement {text : List Char} {op : Operation} (h : Statement text op)
    (gap rest : List Char) : ¬Spaces (gap ++ (text ++ rest)) := by
  intro hspaces
  have hname : ∃ c tail, text = c :: tail ∧ isNameStart c = true := by
    cases h with
    | bare hname =>
        obtain ⟨c, tail, rfl, hc, -⟩ := hname.cons_inv
        exact ⟨c, tail, rfl, hc⟩
    | applied hname =>
        obtain ⟨c, tail, rfl, hc, -⟩ := hname.cons_inv
        exact ⟨c, _, rfl, hc⟩
  obtain ⟨c, tail, rfl, hc⟩ := hname
  exact ne_of_class hc (by decide) (hspaces c (by simp))

theorem statements_chain {cs : List Char} {ops : Sequence} (h : Chain cs ops) (hcs : ¬Spaces cs)
    (found : List Operation) (position : Nat) :
    ∃ ts, statements found (tokensAt position cs) = (.ok (found.reverse ++ ops), ts) := by
  induction h generalizing found position with
  | spaces h => exact absurd h hcs
  | @last gap text gap' op hgap htext hgap' =>
      have hread : statements found (tokensAt (position + gap.length) (text ++ (gap' ++ []))) = _ :=
        statements_statement htext hgap' (by simp) found (position + gap.length)
      rw [List.append_nil] at hread
      rw [tokensAt_spaces hgap, hread, tokensAt_of_spaces hgap', behind_eof rfl, List.reverse_cons]
      exact ⟨_, rfl⟩
  | @cons gap text gap' rest op ops hgap htext hgap' hrest ih =>
      rw [tokensAt_spaces hgap, statements_statement htext hgap' (by simp), tokensAt_spaces hgap',
        tokensAt_pipe]
      by_cases hspaces : Spaces rest
      · rw [tokensAt_of_spaces hspaces, behind_trailing rfl rfl, List.reverse_cons]
        have hops : ops = [] := by
          cases hrest with
          | spaces => rfl
          | last _ htext => exact absurd hspaces (not_spaces_statement htext _ _)
          | cons _ htext => exact absurd hspaces (not_spaces_statement htext _ _)
        rw [hops]
        exact ⟨_, rfl⟩
      · obtain ⟨t, ts, htokens, ht⟩ := exists_tokensAt_ne_eof hspaces
          (position + gap.length + text.length + gap'.length + 1)
        rw [htokens, behind_pipe rfl ht, ← htokens]
        obtain ⟨ts, hread⟩ := ih hspaces (op :: found) (position + gap.length + text.length + gap'.length + 1)
        rw [hread, List.reverse_cons, List.append_assoc]
        exact ⟨ts, rfl⟩

end Parser

theorem parse_of_chain {source : String} {ops : Sequence} (h : Chain source.toList ops) :
    parse source = .ok ops := by
  rw [parse, tokens_eq_tokensAt]
  by_cases hspaces : Spaces source.toList
  · rw [tokensAt_of_spaces hspaces]
    generalize source.toList = cs at h hspaces
    cases h with
    | spaces => rfl
    | last _ htext => exact absurd hspaces (Parser.not_spaces_statement htext _ _)
    | cons _ htext => exact absurd hspaces (Parser.not_spaces_statement htext _ _)
  · rw [Parser.chain_eq_statements hspaces]
    obtain ⟨ts, hread⟩ := Parser.statements_chain h hspaces [] 0
    rw [hread]
    rfl

theorem chain_of_parse {source : String} {ops : Sequence} (h : parse source = .ok ops) :
    Chain source.toList ops := by
  rcases parse_outcome source with ⟨ops', hops', hchain, -⟩ | ⟨e, he, -⟩
  · rw [h] at hops'
    cases hops'
    exact hchain
  · rw [h] at he
    cases he

theorem accepts_of_parse {source : String} {ops : Sequence} (h : parse source = .ok ops) :
    Place.Accepts source.toList := by
  rcases parse_outcome source with ⟨ops', -, -, haccepts⟩ | ⟨e, he, -⟩
  · exact haccepts
  · rw [h] at he
    cases he

/-- The operations that a text is read as are the ones it derives, and no text derives two sequences. -/
theorem parse_eq_ok_iff_derives (source : String) :
    (∀ ops, parse source = .ok ops ↔ Chain source.toList ops) ∧
      ∀ ops ops', Chain source.toList ops → Chain source.toList ops' → ops = ops' := by
  refine ⟨fun ops => ⟨chain_of_parse, parse_of_chain⟩, ?_⟩
  intro ops ops' h h'
  have hparse := parse_of_chain h
  rw [parse_of_chain h'] at hparse
  exact (Except.ok.inj hparse).symm

end TurtleChain
