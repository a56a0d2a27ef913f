import TurtleChain.Proofs.Chain.Steps

/-! Texts that stand further back in a source. Their tokens are the same but for the offsets, and the parser, which
compares offsets only with each other, makes the same of them: the same operations, or the same error at an offset
that is later by as much. -/

namespace TurtleChain

open Lexer

/-- The same error, `n` characters further back. -/
def SyntaxError.later (n : Nat) (e : SyntaxError) : SyntaxError :=
  { e with offset := e.offset + n }

def TokenKind.later (n : Nat) : TokenKind → TokenKind
  | error e => error (e.later n)
  | kind => kind

def Token.later (n : Nat) (t : Token) : Token :=
  ⟨t.kind.later n, t.start + n, t.stop + n⟩

def Parser.Reading.later {α : Type} (n : Nat) (reading : Reading α) : Reading α :=
  (reading.1.mapError (SyntaxError.later n), reading.2.map (Token.later n))

theorem Token.later_kind_iff {kind : TokenKind} (h : ∀ e, kind ≠ .error e) (t : Token) (n : Nat) :
    (t.later n).kind = kind ↔ t.kind = kind := by
  obtain ⟨kind', start, stop⟩ := t
  cases kind' with
  | error e => exact iff_of_false (h (e.later n)).symm (h e).symm
  | _ => exact Iff.rfl

theorem Token.later_errorAt (t : Token) (n : Nat) (cause : SyntaxError.Cause) :
    (t.later n).errorAt cause = (t.errorAt cause).later n := by
  obtain ⟨kind, start, stop⟩ := t
  cases kind <;> rfl

namespace Lexer

theorem Lexeme.later_kind {kind : TokenKind} {text rest : List Char} (h : Lexeme kind text rest) (n : Nat) :
    kind.later n = kind := by
  cases h <;> rfl

/-- The tokens of a text do not depend on where it stands. -/
theorem tokensAt_later (position n : Nat) (cs : List Char) :
    tokensAt (position + n) cs = (tokensAt position cs).map (Token.later n) := by
  induction cs using text_induction generalizing position with
  | spaces hcs =>
      rw [tokensAt_of_spaces hcs, tokensAt_of_spaces hcs, Nat.add_right_comm]
      rfl
  | lexeme hgap h ih =>
      rw [tokensAt_spaces hgap, tokensAt_spaces hgap, tokensAt_lexeme h, tokensAt_lexeme h, List.map_cons, ← ih,
        Token.later, h.later_kind]
      simp only [Nat.add_right_comm _ n]
  | malformed hgap h ih =>
      rw [tokensAt_spaces hgap, tokensAt_spaces hgap, tokensAt_malformed h, tokensAt_malformed h, List.map_cons,
        ← ih]
      simp only [Token.later, TokenKind.later, SyntaxError.later, Nat.add_right_comm _ n]

end Lexer

namespace Parser

theorem spelled_later (text : String) (start n : Nat) :
    spelled text (start + n) = (spelled text start).mapError (SyntaxError.later n) := by
  unfold spelled
  repeat' split
  all_goals rfl

theorem field_later (object : String) (stop n : Nat) {ts : List Token} (h : Ended ts) :
    field object (stop + n) (ts.map (Token.later n)) = (field object stop ts).later n := by
  cases ts with
  | nil => exact absurd h not_ended_nil
  | cons t ts =>
      rw [List.map_cons]
      by_cases hstart : t.start = stop
      · subst hstart
        by_cases hident : ∃ name, t.kind = .ident name
        · obtain ⟨name, hname⟩ := hident
          have hname' : (t.later n).kind = .ident name := (t.later_kind_iff (by simp) n).mpr hname
          rw [field_of_ident ts hname]
          exact field_of_ident _ hname'
        · have hident' : ∀ name, (t.later n).kind ≠ .ident name :=
            fun name hname => hident ⟨name, (t.later_kind_iff (by simp) n).mp hname⟩
          have hread : field object (t.start + n) (t.later n :: ts.map (Token.later n)) = _ :=
            field_of_ne_ident _ hident'
          rw [t.later_errorAt] at hread
          rw [field_of_ne_ident ts fun name hname => hident ⟨name, hname⟩]
          exact hread
      · have hstart' : (t.later n).start ≠ stop + n := fun heq => hstart (Nat.add_right_cancel heq)
        rw [field_of_ne_start ts hstart, field_of_ne_start _ hstart']
        rfl

theorem argument_later (n : Nat) {ts : List Token} (h : Ended ts) :
    argument (ts.map (Token.later n)) = (argument ts).later n := by
  cases ts with
  | nil => exact absurd h not_ended_nil
  | cons t ts =>
      obtain ⟨kind, start, stop⟩ := t
      cases kind with
      | number text => exact Prod.ext (spelled_later text start n) rfl
      | ident name =>
          have hts : Ended ts := h.tail (by simp)
          cases ts with
          | nil => exact absurd hts not_ended_nil
          | cons d rest =>
              have hdot' : (d.later n).kind = .dot ∧ (d.later n).start = stop + n ↔
                  d.kind = .dot ∧ d.start = stop :=
                and_congr (d.later_kind_iff (by simp) n) Nat.add_right_cancel_iff
              by_cases hdot : d.kind = .dot ∧ d.start = stop
              · rw [argument_member rest hdot, ← field_later name d.stop n (hts.tail (by simp [hdot.1]))]
                exact argument_member _ (hdot'.mpr hdot)
              · rw [argument_ident rest hdot]
                exact argument_ident _ (mt hdot'.mp hdot)
      | pipe | colon | dot | string | eof | error => rfl

theorem argument?_later (n : Nat) {ts : List Token} (h : Ended ts) :
    argument? (ts.map (Token.later n)) = (argument? ts).later n := by
  cases ts with
  | nil => exact absurd h not_ended_nil
  | cons t ts =>
      have hcolon' : (t.later n).kind = .colon ↔ t.kind = .colon := t.later_kind_iff (by simp) n
      rw [List.map_cons]
      by_cases hcolon : t.kind = .colon
      · rw [argument?_of_colon ts hcolon, argument?_of_colon _ (hcolon'.mpr hcolon),
          argument_later n (h.tail (by simp [hcolon]))]
        rcases argument ts with ⟨error | arg, rest⟩ <;> rfl
      · rw [argument?_of_ne_colon ts hcolon, argument?_of_ne_colon _ (mt hcolon'.mp hcolon)]
        rfl

/-- Operations are read in the same way wherever they stand. -/
theorem Reads.later {found : List Operation} {ts : List Token} {reading : Reading Sequence}
    (h : Reads found ts reading) (hts : Ended ts) (n : Nat) :
    Reads found (ts.map (Token.later n)) (reading.later n) := by
  have hkind : ∀ {t : Token} {kind}, (∀ e, kind ≠ .error e) → ((t.later n).kind = kind ↔ t.kind = kind) :=
    fun herror => Token.later_kind_iff herror _ n
  have hargument : ∀ {t : Token} {ts name reading}, Ended (t :: ts) → t.kind = .ident name →
      argument? ts = reading → Ended reading.2 ∧ argument? (ts.map (Token.later n)) = reading.later n := by
    rintro t ts name _ hts ht rfl
    have htail : Ended ts := hts.tail (by simp [ht])
    exact ⟨argument?_ended htail, argument?_later n htail⟩
  induction h with
  | @noName found t ts ht =>
      have hread : Reads found (t.later n :: ts.map (Token.later n)) _ :=
        .noName fun name hname => ht name ((hkind (by simp)).mp hname)
      rwa [t.later_errorAt] at hread
  | noArgument ht h => exact .noArgument ((hkind (by simp)).mpr ht) (hargument hts ht h).2
  | @noPipe found t e ts rest name arg ht h heof hpipe =>
      have hread : Reads found (t.later n :: ts.map (Token.later n)) _ :=
        .noPipe ((hkind (by simp)).mpr ht) (hargument hts ht h).2 (mt (hkind (by simp)).mp heof)
          (mt (hkind (by simp)).mp hpipe)
      rwa [e.later_errorAt] at hread
  | last ht h he => exact .last ((hkind (by simp)).mpr ht) (hargument hts ht h).2 ((hkind (by simp)).mpr he)
  | trailing ht h he hn =>
      exact .trailing ((hkind (by simp)).mpr ht) (hargument hts ht h).2 ((hkind (by simp)).mpr he)
        ((hkind (by simp)).mpr hn)
  | next ht h he hn _ ih =>
      have hended := (hargument hts ht h).1
      exact .next ((hkind (by simp)).mpr ht) (hargument hts ht h).2 ((hkind (by simp)).mpr he)
        (mt (hkind (by simp)).mp hn) (ih (hended.tail (by simp [he])))

end Parser

end TurtleChain
