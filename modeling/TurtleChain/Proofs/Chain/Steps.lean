import TurtleChain.Proofs.Chain.Reading

/-! How the parser goes through tokens, whatever text they come from. With an end of input among them its readers
never run out of tokens, since none of them takes it. Reading operations is then one step after another, and
there are six kinds of steps. -/

namespace TurtleChain

open Lexer

namespace Parser

/-- An end of input is among the tokens. -/
def Ended (ts : List Token) : Prop :=
  ∃ t ∈ ts, t.kind = .eof

theorem not_ended_nil : ¬Ended [] := by
  rintro ⟨t, ht, -⟩
  cases ht

theorem ended_cons {t : Token} {ts : List Token} : Ended (t :: ts) ↔ t.kind = .eof ∨ Ended ts := by
  simp [Ended]

theorem Ended.tail {t : Token} {ts : List Token} (h : Ended (t :: ts)) (ht : t.kind ≠ .eof) : Ended ts :=
  (ended_cons.mp h).resolve_left ht

theorem ended_tokensAt (position : Nat) (cs : List Char) : Ended (tokensAt position cs) := by
  induction cs using text_induction generalizing position with
  | spaces hcs =>
      rw [tokensAt_of_spaces hcs]
      exact ended_cons.mpr (Or.inl rfl)
  | lexeme hgap h ih =>
      rw [tokensAt_spaces hgap, tokensAt_lexeme h]
      exact ended_cons.mpr (Or.inr (ih _))
  | malformed hgap h ih =>
      rw [tokensAt_spaces hgap, tokensAt_malformed h]
      exact ended_cons.mpr (Or.inr (ih _))

/-! ### Arguments -/

theorem field_ended (object : String) (stop : Nat) {ts : List Token} (h : Ended ts) :
    Ended (field object stop ts).2 := by
  cases ts with
  | nil => exact absurd h not_ended_nil
  | cons t ts =>
      by_cases hstart : t.start = stop
      · subst hstart
        by_cases hident : ∃ name, t.kind = .ident name
        · obtain ⟨name, hname⟩ := hident
          rw [field_of_ident ts hname]
          exact h.tail (by simp [hname])
        · rwa [field_of_ne_ident ts fun name hname => hident ⟨name, hname⟩]
      · rwa [field_of_ne_start ts hstart]

theorem argument_ended {ts : List Token} (h : Ended ts) : Ended (argument ts).2 := by
  cases ts with
  | nil => exact absurd h not_ended_nil
  | cons t ts =>
      obtain ⟨kind, start, stop⟩ := t
      cases kind with
      | number text => exact h.tail (by simp)
      | string content => exact h.tail (by simp)
      | ident name =>
          have hts : Ended ts := h.tail (by simp)
          cases ts with
          | nil => exact absurd hts not_ended_nil
          | cons d rest =>
              by_cases hdot : d.kind = .dot ∧ d.start = stop
              · rw [argument_member rest hdot]
                exact field_ended name d.stop (hts.tail (by simp [hdot.1]))
              · rwa [argument_ident rest hdot]
      | pipe | colon | dot | eof | error => exact h

theorem argument?_ended {ts : List Token} (h : Ended ts) : Ended (argument? ts).2 := by
  cases ts with
  | nil => exact absurd h not_ended_nil
  | cons t ts =>
      by_cases hcolon : t.kind = .colon
      · rw [argument?_of_colon ts hcolon]
        exact argument_ended (h.tail (by simp [hcolon]))
      · rwa [argument?_of_ne_colon ts hcolon]

/-! ### Operations -/

/-- The operations that tokens are read as, or why they are not, and the tokens that are left. Each constructor is
a step that is taken for what stands in front. -/
inductive Reads : List Operation → List Token → Reading Sequence → Prop where
  | noName {found : List Operation} {t : Token} {ts : List Token} (ht : ∀ name, t.kind ≠ .ident name) :
      Reads found (t :: ts) (.error (t.errorAt .noName), t :: ts)
  | noArgument {found : List Operation} {t : Token} {ts rest : List Token} {name : String} {error : SyntaxError}
      (ht : t.kind = .ident name) (h : argument? ts = (.error error, rest)) :
      Reads found (t :: ts) (.error error, rest)
  | noPipe {found : List Operation} {t e : Token} {ts rest : List Token} {name : String} {arg : Option Arg}
      (ht : t.kind = .ident name) (h : argument? ts = (.ok arg, e :: rest)) (heof : e.kind ≠ .eof)
      (hpipe : e.kind ≠ .pipe) : Reads found (t :: ts) (.error (e.errorAt .noPipe), e :: rest)
  | last {found : List Operation} {t e : Token} {ts rest : List Token} {name : String} {arg : Option Arg}
      (ht : t.kind = .ident name) (h : argument? ts = (.ok arg, e :: rest)) (he : e.kind = .eof) :
      Reads found (t :: ts) (.ok (⟨name, arg⟩ :: found).reverse, e :: rest)
  | trailing {found : List Operation} {t e n : Token} {ts rest : List Token} {name : String} {arg : Option Arg}
      (ht : t.kind = .ident name) (h : argument? ts = (.ok arg, e :: n :: rest)) (he : e.kind = .pipe)
      (hn : n.kind = .eof) : Reads found (t :: ts) (.ok (⟨name, arg⟩ :: found).reverse, n :: rest)
  | next {found : List Operation} {t e n : Token} {ts rest : List Token} {name : String} {arg : Option Arg}
      {reading : Reading Sequence} (ht : t.kind = .ident name) (h : argument? ts = (.ok arg, e :: n :: rest))
      (he : e.kind = .pipe) (hn : n.kind ≠ .eof) (hrest : Reads (⟨name, arg⟩ :: found) (n :: rest) reading) :
      Reads found (t :: ts) reading

theorem Reads.statements_eq {found : List Operation} {ts : List Token} {reading : Reading Sequence}
    (h : Reads found ts reading) : statements found ts = reading := by
  induction h with
  | noName ht => exact statements_of_ne_ident ht
  | noArgument ht h => exact statements_error ht h
  | noPipe ht h heof hpipe => rw [statements_ident ht h, behind_noPipe heof hpipe]
  | last ht h he => rw [statements_ident ht h, behind_eof he]
  | trailing ht h he hn => rw [statements_ident ht h, behind_trailing he hn]
  | next ht h he hn _ ih => rw [statements_ident ht h, behind_pipe he hn, ih]

/-- Behind an operation a step can be taken, if operations can be read from what follows a pipe. -/
theorem exists_reads_behind {found : List Operation} {t : Token} {ts rest : List Token} {name : String}
    {arg : Option Arg} (ht : t.kind = .ident name) (h : argument? ts = (.ok arg, rest)) (hrest : Ended rest)
    (hnext : ∀ e tail, rest = e :: tail → Ended tail → ∃ reading, Reads (⟨name, arg⟩ :: found) tail reading) :
    ∃ reading, Reads found (t :: ts) reading := by
  cases rest with
  | nil => exact absurd hrest not_ended_nil
  | cons e tail =>
      by_cases heof : e.kind = .eof
      · exact ⟨_, .last ht h heof⟩
      · by_cases hpipe : e.kind = .pipe
        · have htail : Ended tail := hrest.tail heof
          obtain ⟨reading, hreads⟩ := hnext e tail rfl htail
          cases tail with
          | nil => exact absurd htail not_ended_nil
          | cons n tail =>
              by_cases hn : n.kind = .eof
              · exact ⟨_, .trailing ht h hpipe hn⟩
              · exact ⟨reading, .next ht h hpipe hn hreads⟩
        · exact ⟨_, .noPipe ht h heof hpipe⟩

/-- There are steps for all tokens that have an end. -/
theorem exists_reads {ts : List Token} (h : Ended ts) (found : List Operation) :
    ∃ reading, Reads found ts reading := by
  induction hn : ts.length using Nat.strongRecOn generalizing ts found with
  | ind n ih =>
      cases ts with
      | nil => exact absurd h not_ended_nil
      | cons t ts =>
          by_cases ht : ∃ name, t.kind = .ident name
          · obtain ⟨name, ht⟩ := ht
            have hended := argument?_ended (h.tail (by simp [ht]))
            have hlength := argument?_length ts
            rcases hread : argument? ts with ⟨error | arg, rest⟩
            · exact ⟨_, .noArgument ht hread⟩
            · rw [hread] at hended hlength
              refine exists_reads_behind ht hread hended fun e tail hrest htail => ih tail.length ?_ htail _ rfl
              simp only [hrest, List.length_cons] at hlength hn
              omega
          · exact ⟨_, .noName fun name hname => ht ⟨name, hname⟩⟩

theorem reads_statements {ts : List Token} (h : Ended ts) (found : List Operation) :
    Reads found ts (statements found ts) := by
  obtain ⟨reading, hreads⟩ := exists_reads h found
  rwa [hreads.statements_eq]

/-- The operations that are found already stand in front of those that are read. -/
theorem Reads.append {found : List Operation} {ts : List Token} {reading : Reading Sequence}
    (h : Reads found ts reading) (before : List Operation) :
    Reads (found ++ before) ts (reading.1.map (before.reverse ++ ·), reading.2) := by
  have hreverse : ∀ op found, before.reverse ++ (op :: found).reverse = (op :: (found ++ before)).reverse := by
    intro op found
    rw [← List.reverse_append, List.cons_append]
  induction h with
  | noName ht => exact .noName ht
  | noArgument ht h => exact .noArgument ht h
  | noPipe ht h heof hpipe => exact .noPipe ht h heof hpipe
  | last ht h he =>
      rw [Except.map, hreverse]
      exact .last ht h he
  | trailing ht h he hn =>
      rw [Except.map, hreverse]
      exact .trailing ht h he hn
  | next ht h he hn _ ih => exact .next ht h he hn ih

end Parser

end TurtleChain
