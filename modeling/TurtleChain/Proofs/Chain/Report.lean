import TurtleChain.Proofs.Chain.Reading

/-! What the report of a refused text says about that text. The character it names is put together from a token,
from the rest behind a malformed one, or from a gap in a member, and never looked up. It is still the character
that stands at the offset, and none only at the end. -/

namespace TurtleChain

/-- The error is at the `n`-th character of a text that starts at `position`, or at its end, and names what stands
there. -/
structure SyntaxError.PointsInto (e : SyntaxError) (position : Nat) (cs : List Char) (n : Nat) : Prop where
  le_length : n ≤ cs.length
  offset_eq : e.offset = position + n
  found_eq : e.found = cs[n]?

theorem SyntaxError.pointsInto_append (front rest : List Char) (position : Nat) (cause : SyntaxError.Cause) :
    PointsInto ⟨position + front.length, rest.head?, cause⟩ position (front ++ rest) front.length := by
  refine ⟨?_, rfl, ?_⟩
  · rw [List.length_append]
    exact Nat.le_add_right _ _
  · rw [List.getElem?_append_right (Nat.le_refl _), Nat.sub_self, List.head?_eq_getElem?]

theorem Place.Rejects.exists_pointsInto {q : Place} {position : Nat} {cs : List Char} {e : SyntaxError}
    (h : q.Rejects position cs e) : ∃ n, e.PointsInto position cs n := by
  cases h with
  | @stuck front rest c _ cause hcs =>
      rw [hcs]
      exact ⟨_, SyntaxError.pointsInto_append front (c :: rest) position cause⟩
  | @ended _ cause =>
      have hpoints := SyntaxError.pointsInto_append cs [] position cause
      rw [List.append_nil] at hpoints
      exact ⟨_, hpoints⟩
  | @range front literal rest n _ hcs _ hliteral =>
      obtain ⟨c, tail, rfl, -⟩ := integer_cons_inv hliteral
      rw [hcs]
      exact ⟨_, SyntaxError.pointsInto_append front (c :: tail ++ rest) position _⟩
  | @misplaced front text rest _ _ cause hcs =>
      rw [hcs, ← List.append_assoc, ← List.length_append]
      exact ⟨_, SyntaxError.pointsInto_append (front ++ text) rest position cause⟩

theorem SyntaxError.Cause.message_ne_empty (cause : Cause) : cause.message ≠ "" := by
  unfold message
  split
  all_goals simp

/-- The offset of a report lies in the text or at its end, the character it names stands there, and its message
says something. -/
theorem parse_error_found {source : String} {e : SyntaxError} (h : parse source = .error e) :
    e.report.offset ≤ source.length ∧ e.report.found = source.toList[e.report.offset]? ∧
      (e.report.found = none ↔ e.report.offset = source.length) ∧ e.report.message ≠ "" := by
  obtain ⟨n, hle, hoffset, hfound⟩ : ∃ n, e.PointsInto 0 source.toList n := by
    rcases parse_outcome source with ⟨ops, hops, -⟩ | ⟨e', he, hrejects⟩
    · rw [h] at hops
      cases hops
    · rw [h] at he
      cases he
      exact hrejects.exists_pointsInto
  rw [String.length_toList] at hle
  rw [Nat.zero_add] at hoffset
  subst hoffset
  refine ⟨hle, hfound, ?_, e.cause.message_ne_empty⟩
  rw [show e.report.found = source.toList[e.offset]? from hfound, List.getElem?_eq_none_iff, String.length_toList]
  exact ⟨fun hge => Nat.le_antisymm hle hge, fun heq => Nat.le_of_eq heq.symm⟩

/-- The gap is behind a character of two bytes. -/
theorem parse_error_found_member_gap :
    parse "P:£t. x" = .error ⟨5, some ' ', .noField⟩ ∧ 5 ≤ "P:£t. x".length ∧
      some ' ' = "P:£t. x".toList[5]? := by
  have h : parse "P:£t. x" = .error ⟨5, some ' ', .noField⟩ := by cbv
  obtain ⟨hle, hfound, -⟩ := parse_error_found h
  exact ⟨h, hle, hfound⟩

end TurtleChain
