import TurtleChain.Proofs.Chain.Acceptance

/-! Where a refused text is reported. A prefix can be gone on from exactly if a reader gets through it, so the
longest such prefix ends where the reader is stuck. The report names that place, with two exceptions: an
integer out of range is reported at its first character, and a malformed number or string that starts where
the prefix ends is reported where it breaks off. -/

namespace TurtleChain

open Grammar Lexer

/-- Some text that starts like this is a chain. -/
def Viable (cs : List Char) : Prop :=
  ∃ rest ops, parse (String.ofList (cs ++ rest)) = .ok ops

namespace Place

/-- An integer out of range is an argument that nothing may follow. -/
theorem run_outOfRange {literal rest : List Char} {n : Int} (h : Integer literal n) (hn : fitsInt64 n = false)
    (hrest : Stops Char.isDigit rest) (hpoint : rest.head? ≠ some '.') :
    ∀ q, argument.run (literal ++ rest) = some q → q.accepting = false := by
  intro q hq
  rcases run_integer h with ⟨-, rfl, -⟩ | hrun
  · cases hn
  · have hrange : inRange literal = false := by
      rw [inRange, Numeral.readInt?_integer h, Option.any_some, hn]
    rw [run_append_of_run hrun] at hq
    cases rest with
    | nil =>
        cases hq
        exact hrange
    | cons c rest =>
        have hc : c ≠ '.' := by
          rintro rfl
          exact hpoint rfl
        have hstep : (whole literal).step c = none := by
          rw [step, stops_cons.mp hrest, if_neg Bool.false_ne_true, if_neg hc, hrange,
            if_neg Bool.false_ne_true]
        rw [run_cons_none hstep] at hq
        cases hq

theorem run_stuck {q q' : Place} {front rest : List Char} {c : Char} (hrun : q.run front = some q')
    (hstep : q'.step c = none) : q.run (front ++ c :: rest) = none := by
  rw [run_append_of_run hrun, run_cons_none hstep]

theorem not_accepts_of_rejects {position : Nat} {cs : List Char} {e : SyntaxError}
    (h : opening.Rejects position cs e) : ¬Accepts cs := by
  rintro ⟨q, hq, haccepting⟩
  cases h with
  | stuck hcs hrun hstep =>
      rw [hcs, run_stuck hrun hstep] at hq
      cases hq
  | ended hrun hend =>
      rw [hrun] at hq
      cases hq
      rw [hend] at haccepting
      cases haccepting
  | range hcs hrun hliteral hn hrest hpoint =>
      rw [hcs, run_append_of_run hrun] at hq
      rw [run_outOfRange hliteral hn hrest hpoint q hq] at haccepting
      cases haccepting
  | @misplaced front text rest q' t cause hcs hrun hstep htext =>
      cases text with
      | nil => exact htext rfl
      | cons c text =>
          rw [hcs, List.cons_append, run_stuck hrun (hstep c rfl)] at hq
          cases hq

end Place

theorem exists_parse_of_accepts {source : String} (h : Place.Accepts source.toList) :
    ∃ ops, parse source = .ok ops := by
  rcases parse_outcome source with ⟨ops, hops, -⟩ | ⟨e, -, hrejects⟩
  · exact ⟨ops, hops⟩
  · exact absurd h (Place.not_accepts_of_rejects hrejects)

theorem viable_iff (cs : List Char) : Viable cs ↔ ∃ q, Place.opening.run cs = some q := by
  constructor
  · rintro ⟨rest, ops, hops⟩
    obtain ⟨q, hq, -⟩ := accepts_of_parse hops
    rw [String.toList_ofList, Place.run_append] at hq
    obtain ⟨q', hq', -⟩ := Option.bind_eq_some_iff.mp hq
    exact ⟨q', hq'⟩
  · rintro ⟨q, hq⟩
    obtain ⟨rest, q', hrun, haccepting⟩ := q.exists_run_accepting
    have haccepts : Place.Accepts (String.ofList (cs ++ rest)).toList := by
      rw [String.toList_ofList]
      exact ⟨q', by rw [Place.run_append_of_run hq, hrun], haccepting⟩
    obtain ⟨ops, hops⟩ := exists_parse_of_accepts haccepts
    exact ⟨rest, ops, hops⟩

/-- The lengths of the prefixes of a text that can be gone on from. -/
def viableLengths (source : String) : Set Nat :=
  {n | n ≤ source.length ∧ Viable (source.toList.take n)}

theorem isGreatest_of_stuck {source : String} {front rest : List Char} {c : Char} {q : Place}
    (hsource : source.toList = front ++ c :: rest) (hrun : Place.opening.run front = some q)
    (hstep : q.step c = none) : IsGreatest (viableLengths source) front.length := by
  have hlength : source.length = front.length + (rest.length + 1) := by
    rw [← String.length_toList, hsource, List.length_append, List.length_cons]
  refine ⟨⟨by omega, ?_⟩, ?_⟩
  · rw [hsource, List.take_left, viable_iff]
    exact ⟨q, hrun⟩
  · rintro n ⟨-, hviable⟩
    rcases Nat.lt_or_ge front.length n with hlt | hle
    · obtain ⟨m, rfl⟩ : ∃ m, n = front.length + (m + 1) := ⟨n - front.length - 1, by omega⟩
      rw [hsource, List.take_length_add_append, List.take_succ_cons, viable_iff] at hviable
      obtain ⟨q', hq'⟩ := hviable
      rw [Place.run_stuck hrun hstep] at hq'
      cases hq'
    · exact hle

theorem isGreatest_of_run {source : String} {q : Place} (hrun : Place.opening.run source.toList = some q) :
    IsGreatest (viableLengths source) source.length := by
  refine ⟨⟨Nat.le_refl _, ?_⟩, fun n hn => hn.1⟩
  rw [← String.length_toList, List.take_length, viable_iff]
  exact ⟨q, hrun⟩

/-- No token breaks off behind the end of the text. -/
theorem not_breaksLater_end (position : Nat) (cs : List Char) :
    ¬BreaksLater (tokensAt position cs) (position + cs.length) := by
  rintro ⟨t, ht, -, e, hkind, hlt⟩
  cases standsIn_of_mem ht with
  | eof heof =>
      rw [heof] at hkind
      cases hkind
  | lexeme _ _ h =>
      rw [hkind] at h
      cases h
  | malformed hcs hstart _ herror =>
      rw [herror] at hkind
      cases hkind
      simp only [hcs, List.length_append] at hlt
      omega

theorem ne_integerOutOfRange {cause : SyntaxError.Cause} (h : cause.concernsRange = false)
    (literal : String) : cause ≠ .integerOutOfRange literal := by
  rintro rfl
  cases h

/-- The report of a refused text. An integer out of range is reported at its first character. Every other
report names the end of the longest prefix that can be gone on from, unless a malformed token starts there
and breaks off later; the report is then the one of that token, and comes too late. -/
theorem parse_error_offset {source : String} {e : SyntaxError} (h : parse source = .error e) :
    (∀ literal, e.cause = .integerOutOfRange literal →
      ∃ before after n, source.toList = before ++ (literal.toList ++ after) ∧ e.offset = before.length ∧
        Integer literal.toList n ∧ fitsInt64 n = false ∧
        ∃ t ∈ tokens source, t.kind = .number literal ∧ t.start = e.offset) ∧
    ((∀ literal, e.cause ≠ .integerOutOfRange literal) →
      ∃ n, IsGreatest (viableLengths source) n ∧ (e.offset = n ↔ ¬BreaksLater (tokens source) n) ∧
        (BreaksLater (tokens source) n → n < e.offset ∧ ∃ t ∈ tokens source, t.start = n ∧ t.kind = .error e)) := by
  obtain ⟨e', he, hrejects⟩ : ∃ e', parse source = .error e' ∧ Place.opening.Rejects 0 source.toList e' := by
    rcases parse_outcome source with ⟨ops, hops, -⟩ | hrejects
    · rw [h] at hops
      cases hops
    · exact hrejects
  rw [h] at he
  cases he
  rw [tokens_eq_tokensAt]
  cases hrejects with
  | @stuck front _ _ _ _ hcs hrun hstep hlater hcause =>
      rw [Nat.zero_add] at hlater ⊢
      refine ⟨fun literal hliteral => absurd hliteral (ne_integerOutOfRange hcause literal),
        fun _ => ⟨front.length, isGreatest_of_stuck hcs hrun hstep, ?_, ?_⟩⟩
      · exact iff_of_true rfl hlater
      · exact fun hlater' => absurd hlater' hlater
  | ended hrun hend hcause =>
      have hlater := not_breaksLater_end 0 source.toList
      rw [Nat.zero_add] at hlater ⊢
      refine ⟨fun literal hliteral => absurd hliteral (ne_integerOutOfRange hcause literal),
        fun _ => ⟨source.length, isGreatest_of_run hrun, ?_, ?_⟩⟩
      · exact iff_of_true String.length_toList hlater
      · exact fun hlater' => absurd hlater' hlater
  | @range front literal rest n t hcs hrun hliteral hn hrest hpoint ht hstart hkind =>
      refine ⟨fun literal' hliteral' => ?_, fun hcause => absurd rfl (hcause _)⟩
      cases hliteral'
      rw [String.toList_ofList]
      exact ⟨front, rest, n, hcs, Nat.zero_add _, hliteral, hn, t, ht, hkind, hstart⟩
  | @misplaced front text rest q t cause hcs hrun hstep htext ht hstart hkind hcause =>
      rw [Nat.zero_add] at hstart hkind ⊢
      cases text with
      | nil => exact absurd rfl htext
      | cons c text =>
          have hlt : front.length < front.length + (c :: text).length := Nat.lt_add_of_pos_right (Nat.succ_pos _)
          have hlater : BreaksLater (tokensAt 0 source.toList) front.length := ⟨t, ht, hstart, _, hkind, hlt⟩
          refine ⟨fun literal hliteral => absurd hliteral (ne_integerOutOfRange hcause literal),
            fun _ => ⟨front.length, isGreatest_of_stuck hcs hrun (hstep c rfl), ?_, ?_⟩⟩
          · exact iff_of_false (Nat.ne_of_gt hlt) fun hnot => hnot hlater
          · exact fun _ => ⟨hlt, t, ht, hstart, hkind⟩

theorem parse_error_offset_two_colons :
    ∃ n, IsGreatest (viableLengths "D::2|X#") n ∧ (2 = n ↔ ¬BreaksLater (tokens "D::2|X#") n) := by
  have h : parse "D::2|X#" = .error ⟨2, some ':', .noArgument⟩ := by cbv
  obtain ⟨n, hn, hiff, -⟩ := (parse_error_offset h).2 (by simp)
  exact ⟨n, hn, hiff⟩

/-- The minus cannot come next, and what is reported is the zero behind it. -/
theorem minus_behind_name_reported_late :
    parse "D -0" = .error ⟨3, some '0', .zeroAfterMinus⟩ ∧ IsGreatest (viableLengths "D -0") 2 := by
  have hsource : "D -0".toList = ['D', ' '] ++ '-' :: ['0'] := by decide
  exact ⟨by cbv, isGreatest_of_stuck (q := .behindName) hsource (by decide) (by decide)⟩

end TurtleChain
