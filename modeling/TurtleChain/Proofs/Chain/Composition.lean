import TurtleChain.Proofs.Chain.Acceptance
import TurtleChain.Proofs.Chain.Offset

/-! Chains put together with a pipe. No token goes across a pipe. A chain without a pipe at its end is therefore
read to its end and what follows the pipe on its own, further back; and a chain that is refused for a character in
it is refused for the same whatever follows. -/

namespace TurtleChain

open Grammar Lexer

/-! ### Refused for a character -/

/-- The token shows where the text ends: it is the end of input, or malformed for it. -/
def Token.AtEnd (t : Token) : Prop :=
  t.kind = .eof ∨ ∃ e, t.kind = .error e ∧ e.found = none

theorem Token.AtEnd.kind_ne {t : Token} (h : t.AtEnd) {kind : TokenKind} (heof : kind ≠ .eof)
    (herror : ∀ e, kind ≠ .error e) : t.kind ≠ kind := by
  rcases h with h | ⟨e, h, -⟩
  · rw [h]
    exact heof.symm
  · rw [h]
    exact (herror e).symm

theorem Token.AtEnd.found_errorAt {t : Token} (h : t.AtEnd) (cause : SyntaxError.Cause) :
    (t.errorAt cause).found = none := by
  rcases h with h | ⟨e, h, he⟩
  · rw [Token.errorAt, h]
    rfl
  · rw [Token.errorAt, h]
    exact he

namespace Lexer

/-- The tokens of a text, and those of a longer one that goes on with a pipe. Where the first show the end, the
others have the pipe, or a token that is malformed for it. -/
inductive Continues : List Token → List Token → Prop where
  | cons (t : Token) {ts ts' : List Token} (h : Continues ts ts') : Continues (t :: ts) (t :: ts')
  | fork {t t' : Token} {ts ts' : List Token} (hend : t.AtEnd) (hstart : t'.start = t.start)
      (hkind : t'.kind = .pipe ∨ ∃ e, t'.kind = .error e) : Continues (t :: ts) (t' :: ts')

theorem stops_append_pipe {p : Char → Bool} {rest : List Char} (h : Stops p rest) (hpipe : p '|' = false)
    (behind : List Char) : Stops p (rest ++ '|' :: behind) := by
  cases rest with
  | nil => exact stops_cons.mpr hpipe
  | cons c rest => exact stops_cons.mpr (stops_cons.mp h)

theorem Lexeme.append_pipe {kind : TokenKind} {text rest : List Char} (h : Lexeme kind text rest)
    (behind : List Char) : Lexeme kind text (rest ++ '|' :: behind) := by
  cases h with
  | pipe => exact .pipe _
  | colon => exact .colon _
  | dot => exact .dot _
  | ident h hrest => exact .ident h (stops_append_pipe hrest (by decide) behind)
  | integer h hrest hpoint =>
      refine .integer h (stops_append_pipe hrest (by decide) behind) ?_
      cases rest with
      | nil => simp
      | cons c rest => exact hpoint
  | fraction h hrest => exact .fraction h (stops_append_pipe hrest (by decide) behind)
  | string h => exact .string h _

theorem Malformed.append {cause : SyntaxError.Cause} {text rest : List Char} {c : Char}
    (h : Malformed cause text (c :: rest)) (behind : List Char) :
    Malformed cause text (c :: (rest ++ behind)) := by
  cases h with
  | stray hc h => exact .stray hc h
  | zeroAfterMinus => exact .zeroAfterMinus _
  | noDigitAfterMinus h => exact .noDigitAfterMinus (stops_cons.mpr (stops_cons.mp h))
  | leadingZero h => exact .leadingZero h
  | noDigitAfterPoint hwhole h => exact .noDigitAfterPoint hwhole (stops_cons.mpr (stops_cons.mp h))
  | badStringCharacter h hc hquote => exact .badStringCharacter h hc hquote

/-- What is malformed for the end of the text is malformed for a pipe as well. -/
theorem Malformed.pipe {cause : SyntaxError.Cause} {text : List Char} (h : Malformed cause text [])
    (behind : List Char) : ∃ cause', Malformed cause' text ('|' :: behind) := by
  cases h with
  | noDigitAfterMinus => exact ⟨_, .noDigitAfterMinus (stops_cons.mpr (by decide))⟩
  | noDigitAfterPoint hwhole => exact ⟨_, .noDigitAfterPoint hwhole (stops_cons.mpr (by decide))⟩
  | openString h => exact ⟨_, .badStringCharacter h (by decide) (by decide)⟩

theorem continues_tokensAt (position : Nat) (cs behind : List Char) :
    Continues (tokensAt position cs) (tokensAt position (cs ++ '|' :: behind)) := by
  induction cs using text_induction generalizing position with
  | spaces hcs =>
      rw [tokensAt_of_spaces hcs, tokensAt_spaces hcs, tokensAt_pipe]
      exact .fork (Or.inl rfl) rfl (Or.inl rfl)
  | lexeme hgap h ih =>
      rw [List.append_assoc, List.append_assoc, tokensAt_spaces hgap, tokensAt_spaces hgap, tokensAt_lexeme h,
        tokensAt_lexeme (h.append_pipe behind)]
      exact .cons _ (ih _)
  | @malformed gap text rest cause hgap h ih =>
      rw [List.append_assoc, List.append_assoc, tokensAt_spaces hgap, tokensAt_spaces hgap, tokensAt_malformed h]
      cases rest with
      | nil =>
          obtain ⟨cause', h'⟩ := h.pipe behind
          rw [List.nil_append, tokensAt_malformed h']
          exact .fork (Or.inr ⟨_, rfl, rfl⟩) rfl (Or.inr ⟨_, rfl⟩)
      | cons c rest =>
          rw [List.cons_append, tokensAt_malformed (h.append ('|' :: behind))]
          exact .cons _ (ih _)

end Lexer

namespace Parser

/-- Of the longer text the same is read, unless the shorter one is refused for its end. -/
inductive Reading.Continues {α : Type} : Reading α → Reading α → Prop where
  | ok {a : α} {rest rest' : List Token} (h : Lexer.Continues rest rest') :
      Reading.Continues (.ok a, rest) (.ok a, rest')
  | error {e : SyntaxError} {rest rest' : List Token} : Reading.Continues (.error e, rest) (.error e, rest')
  | atEnd {e : SyntaxError} {rest : List Token} {reading : Reading α} (h : e.found = none) :
      Reading.Continues (.error e, rest) reading

theorem field_continues (object : String) (stop : Nat) {ts ts' : List Token} (h : Continues ts ts') :
    (field object stop ts).Continues (field object stop ts') := by
  cases h with
  | @cons t ts ts' h =>
      by_cases hstart : t.start = stop
      · subst hstart
        by_cases hident : ∃ name, t.kind = .ident name
        · obtain ⟨name, hname⟩ := hident
          rw [field_of_ident ts hname, field_of_ident ts' hname]
          exact .ok h
        · have hident' : ∀ name, t.kind ≠ .ident name := fun name hname => hident ⟨name, hname⟩
          rw [field_of_ne_ident ts hident', field_of_ne_ident ts' hident']
          exact .error
      · rw [field_of_ne_start ts hstart, field_of_ne_start ts' hstart]
        exact .error
  | @fork t t' ts ts' hend hstart' =>
      by_cases hstart : t.start = stop
      · subst hstart
        rw [field_of_ne_ident ts fun _ => hend.kind_ne (by simp) (by simp)]
        exact .atEnd (hend.found_errorAt _)
      · rw [field_of_ne_start ts hstart, field_of_ne_start ts' (by rwa [hstart'])]
        exact .error

theorem argument_continues {ts ts' : List Token} (h : Continues ts ts') :
    (argument ts).Continues (argument ts') := by
  cases h with
  | @cons t ts ts' h =>
      obtain ⟨kind, start, stop⟩ := t
      cases kind with
      | number text =>
          rw [argument_number, argument_number]
          cases spelled text start with
          | error e => exact .error
          | ok arg => exact .ok h
      | string content => exact .ok h
      | ident name =>
          cases h with
          | @cons d rest rest' h =>
              by_cases hdot : d.kind = .dot ∧ d.start = stop
              · rw [argument_member rest hdot, argument_member rest' hdot]
                exact field_continues name d.stop h
              · rw [argument_ident rest hdot, argument_ident rest' hdot]
                exact .ok (.cons d h)
          | @fork d d' rest rest' hend hstart hkind =>
              have hdot : d.kind ≠ .dot := hend.kind_ne (by simp) (by simp)
              have hdot' : d'.kind ≠ .dot := by rcases hkind with h | ⟨e, h⟩ <;> simp [h]
              rw [argument_ident rest fun h => hdot h.1, argument_ident rest' fun h => hdot' h.1]
              exact .ok (.fork hend hstart hkind)
      | pipe | colon | dot | eof | error => exact .error
  | @fork t t' ts ts' hend =>
      rw [argument_of_not_value ts (by rcases hend with h | ⟨e, h, -⟩ <;> simp [h])]
      exact .atEnd (hend.found_errorAt _)

theorem argument?_continues {ts ts' : List Token} (h : Continues ts ts') :
    (argument? ts).Continues (argument? ts') := by
  cases h with
  | @cons t ts ts' h =>
      by_cases hcolon : t.kind = .colon
      · have hargument := argument_continues h
        rw [argument?_of_colon ts hcolon, argument?_of_colon ts' hcolon]
        generalize argument ts = reading, argument ts' = reading' at hargument
        cases hargument with
        | ok hrest => exact .ok hrest
        | error => exact .error
        | atEnd hfound => exact .atEnd hfound
      · rw [argument?_of_ne_colon ts hcolon, argument?_of_ne_colon ts' hcolon]
        exact .ok (.cons t h)
  | @fork t t' ts ts' hend hstart hkind =>
      have hcolon : t.kind ≠ .colon := hend.kind_ne (by simp) (by simp)
      have hcolon' : t'.kind ≠ .colon := by rcases hkind with h | ⟨e, h⟩ <;> simp [h]
      rw [argument?_of_ne_colon ts hcolon, argument?_of_ne_colon ts' hcolon']
      exact .ok (.fork hend hstart hkind)

/-- An error that names a character is met again where the tokens are continued. -/
theorem Reads.continues {found : List Operation} {ts ts' : List Token} {reading : Reading Sequence}
    {error : SyntaxError} (h : Reads found ts reading) (hts : Continues ts ts') (herror : reading.1 = .error error)
    (hfound : error.found ≠ none) : ∃ rest, Reads found ts' (.error error, rest) := by
  have hident : ∀ {t : Token} {ts ts' name}, t.kind = .ident name → Continues (t :: ts) ts' →
      ∃ tail, ts' = t :: tail ∧ (argument? ts).Continues (argument? tail) := by
    intro t ts ts' name ht hts
    cases hts with
    | cons _ hts => exact ⟨_, rfl, argument?_continues hts⟩
    | fork hend => exact absurd ht (hend.kind_ne (by simp) (by simp))
  -- As long as the tokens are the same, so are the steps. One that sees them fork ends the reading, without an error or
  -- with one that names no character.
  induction h generalizing ts' with
  | noName ht =>
      cases herror
      cases hts with
      | cons => exact ⟨_, .noName ht⟩
      | fork hend => exact absurd (hend.found_errorAt _) hfound
  | noArgument ht h =>
      cases herror
      obtain ⟨tail, rfl, hargument⟩ := hident ht hts
      rw [h] at hargument
      generalize hread : argument? tail = reading' at hargument
      cases hargument with
      | error => exact ⟨_, .noArgument ht hread⟩
      | atEnd hnone => exact absurd hnone hfound
  | noPipe ht h heof hpipe =>
      cases herror
      obtain ⟨tail, rfl, hargument⟩ := hident ht hts
      rw [h] at hargument
      generalize hread : argument? tail = reading' at hargument
      cases hargument with
      | ok hrest =>
          cases hrest with
          | cons => exact ⟨_, .noPipe ht hread heof hpipe⟩
          | fork hend => exact absurd (hend.found_errorAt _) hfound
  | last | trailing => cases herror
  | next ht h he hn _ ih =>
      obtain ⟨tail, rfl, hargument⟩ := hident ht hts
      rw [h] at hargument
      generalize hread : argument? tail = reading' at hargument
      cases hargument with
      | ok hrest =>
          cases hrest with
          | fork hend => exact absurd he (hend.kind_ne (by simp) (by simp))
          | cons _ hrest =>
              obtain ⟨rest, hreads⟩ := ih hrest herror
              cases hrest with
              | cons => exact ⟨rest, .next ht hread he hn hreads⟩
              | fork _ _ hkind =>
                  exact ⟨rest, .next ht hread he (by rcases hkind with h | ⟨e, h⟩ <;> simp [h]) hreads⟩

end Parser

theorem not_spaces_append_pipe (cs behind : List Char) : ¬Spaces (cs ++ '|' :: behind) :=
  fun h => absurd (h '|' (by simp)) (by decide)

theorem parse_eq_statements {source : String} (h : ¬Spaces source.toList) :
    parse source = (Parser.statements [] (tokensAt 0 source.toList)).1 := by
  rw [parse, tokens_eq_tokensAt, Parser.chain_eq_statements h]

theorem toList_append_pipe (front behind : String) :
    (front ++ "|" ++ behind).toList = front.toList ++ '|' :: behind.toList := by
  simp

theorem parse_append_of_error {front : String} {e : SyntaxError} (h : parse front = .error e)
    (hfound : e.found ≠ none) (behind : String) : parse (front ++ "|" ++ behind) = .error e := by
  have hfront : ¬Spaces front.toList := by
    intro hspaces
    rw [parse_of_chain (.spaces hspaces)] at h
    cases h
  have hreads := Parser.reads_statements (Parser.ended_tokensAt 0 front.toList) []
  rw [parse_eq_statements hfront] at h
  obtain ⟨rest, hreads'⟩ := hreads.continues (continues_tokensAt 0 front.toList behind.toList) h hfound
  have hboth : ¬Spaces (front ++ "|" ++ behind).toList := by
    rw [toList_append_pipe]
    exact not_spaces_append_pipe _ _
  rw [parse_eq_statements hboth, toList_append_pipe, hreads'.statements_eq]

/-! ### Complete in front of the pipe -/

def lastNonSpace (cs : List Char) : Option Char :=
  (cs.filter (· ≠ ' ')).getLast?

theorem lastNonSpace_spaces {cs : List Char} (h : Spaces cs) : lastNonSpace cs = none := by
  have hfilter : cs.filter (· ≠ ' ') = [] := List.filter_eq_nil_iff.mpr fun c hc => by simp [h c hc]
  rw [lastNonSpace, hfilter, List.getLast?_nil]

theorem lastNonSpace_append_pipe (cs rest : List Char) :
    lastNonSpace (cs ++ '|' :: rest) = (lastNonSpace rest).or (some '|') := by
  rw [lastNonSpace, List.filter_append, List.filter_cons_of_pos (by decide), List.getLast?_append,
    List.getLast?_cons, lastNonSpace]
  cases (rest.filter (· ≠ ' ')).getLast? <;> rfl

namespace Parser

/-- All operations of a chain are read before the pipe that follows it. -/
theorem statements_append_pipe {cs : List Char} {ops : Sequence} (h : Chain cs ops) (hops : ops ≠ [])
    (hlast : lastNonSpace cs ≠ some '|') (rest : List Char) (found : List Operation) (position : Nat) :
    statements found (tokensAt position (cs ++ '|' :: rest)) =
      behind (ops.reverse ++ found) (tokensAt (position + cs.length) ('|' :: rest)) := by
  induction h generalizing found position with
  | spaces => exact absurd rfl hops
  | @last gap text gap' op hgap htext hgap' =>
      have hfront : gap ++ (text ++ gap') ++ '|' :: rest = gap ++ (text ++ (gap' ++ '|' :: rest)) := by simp
      rw [hfront, tokensAt_spaces hgap, statements_statement htext hgap' (by simp), tokensAt_spaces hgap',
        List.length_append, List.length_append, ← Nat.add_assoc, ← Nat.add_assoc]
      rfl
  | @cons gap text gap' tail op ops hgap htext hgap' htail ih =>
      have hfront : gap ++ (text ++ (gap' ++ '|' :: tail)) ++ '|' :: rest =
          gap ++ (text ++ (gap' ++ '|' :: (tail ++ '|' :: rest))) := by simp
      have hsplit : gap ++ (text ++ (gap' ++ '|' :: tail)) = (gap ++ (text ++ gap')) ++ '|' :: tail := by simp
      rw [hsplit, lastNonSpace_append_pipe] at hlast
      have hspaces : ¬Spaces tail := fun hspaces => hlast (by rw [lastNonSpace_spaces hspaces, Option.none_or])
      have hops' : ops ≠ [] := by
        rintro rfl
        cases htail
        next h => exact hspaces h
      have hlast' : lastNonSpace tail ≠ some '|' := fun h => hlast (by rw [h, Option.some_or])
      obtain ⟨t, ts, htokens, ht⟩ := exists_tokensAt_ne_eof (not_spaces_append_pipe tail rest)
        (position + gap.length + text.length + gap'.length + 1)
      rw [hfront, tokensAt_spaces hgap, statements_statement htext hgap' (by simp), tokensAt_spaces hgap',
        tokensAt_pipe, htokens, behind_pipe rfl ht, ← htokens, ih hops' hlast', List.reverse_cons,
        List.append_assoc]
      congr 2
      simp only [List.length_append, List.length_cons]
      omega

/-- Operations that are read further back, behind others that are found already. -/
theorem statements_later (found : List Operation) (n : Nat) (cs : List Char) :
    (statements found (tokensAt n cs)).1 =
      ((statements [] (tokensAt 0 cs)).1.mapError (SyntaxError.later n)).map (found.reverse ++ ·) := by
  have hended := ended_tokensAt 0 cs
  have hreads := ((reads_statements hended []).later hended n).append found
  rw [← tokensAt_later, Nat.zero_add, List.nil_append] at hreads
  rw [hreads.statements_eq]
  rfl

end Parser

theorem parse_append_of_ok {front : String} {ops : Sequence} (h : parse front = .ok ops) (hops : ops ≠ [])
    (hlast : lastNonSpace front.toList ≠ some '|') (behind : String) :
    parse (front ++ "|" ++ behind) =
      ((parse behind).mapError (SyntaxError.later (front.length + 1))).map (ops ++ ·) := by
  have hboth : ¬Spaces (front ++ "|" ++ behind).toList := by
    rw [toList_append_pipe]
    exact not_spaces_append_pipe _ _
  rw [parse_eq_statements hboth, toList_append_pipe,
    Parser.statements_append_pipe (chain_of_parse h) hops hlast, tokensAt_pipe, Nat.zero_add, String.length_toList,
    List.append_nil]
  by_cases hspaces : Spaces behind.toList
  · rw [tokensAt_of_spaces hspaces, Parser.behind_trailing rfl rfl, parse_of_chain (.spaces hspaces),
      List.reverse_reverse]
    simp only [Except.mapError, Except.map, List.append_nil]
  · obtain ⟨t, ts, htokens, ht⟩ := Parser.exists_tokensAt_ne_eof hspaces (front.length + 1)
    rw [htokens, Parser.behind_pipe rfl ht, ← htokens, Parser.statements_later, parse_eq_statements hspaces,
      List.reverse_reverse]

/-- What follows a pipe is read on its own, behind the operations of a chain that has no pipe at its end, and not
looked at behind a text that is refused for a character. -/
theorem parse_append_pipe (front behind : String) :
    (∀ ops, parse front = .ok ops → ops ≠ [] → lastNonSpace front.toList ≠ some '|' →
        parse (front ++ "|" ++ behind) =
          match parse behind with
          | .ok ops' => .ok (ops ++ ops')
          | .error e => .error { e with offset := e.offset + (front.length + 1) }) ∧
      ∀ e, parse front = .error e → e.found ≠ none → parse (front ++ "|" ++ behind) = .error e := by
  refine ⟨fun ops h hops hlast => ?_, fun e h hfound => parse_append_of_error h hfound behind⟩
  rw [parse_append_of_ok h hops hlast]
  cases parse behind with
  | ok ops' => rfl
  | error e => rfl

/-- An open string is found behind a complete chain, and not behind a member with a gap. -/
theorem parse_append_pipe_open_string :
    (parse "D:x.y " = .ok [⟨"D", some (.member "x" "y")⟩] ∧ parse "T:\"a" = .error ⟨4, none, .openString⟩ ∧
        parse ("D:x.y " ++ "|" ++ "T:\"a") = .error ⟨11, none, .openString⟩) ∧
      parse "P:x. " = .error ⟨4, some ' ', .noField⟩ ∧
        parse ("P:x. " ++ "|" ++ "T:\"a") = .error ⟨4, some ' ', .noField⟩ := by
  have hmember : parse "D:x.y " = .ok [⟨"D", some (.member "x" "y")⟩] := by cbv
  have hopen : parse "T:\"a" = .error ⟨4, none, .openString⟩ := by cbv
  have hgap : parse "P:x. " = .error ⟨4, some ' ', .noField⟩ := by cbv
  have hlast : lastNonSpace "D:x.y ".toList ≠ some '|' := by decide
  have hlength : "D:x.y ".length = 6 := by decide
  have hread := (parse_append_pipe "D:x.y " "T:\"a").1 _ hmember (List.cons_ne_nil _ _) hlast
  rw [hopen, hlength] at hread
  exact ⟨⟨hmember, hopen, hread⟩, hgap, (parse_append_pipe "P:x. " "T:\"a").2 _ hgap (by simp)⟩

end TurtleChain
