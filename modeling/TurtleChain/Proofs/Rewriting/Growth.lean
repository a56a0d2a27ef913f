import TurtleChain.Proofs.Rewriting.Generations

/-! How generations grow. Where all rules put in equally many operations that the next pass replaces, and equally many
of some kind that stay, a pass multiplies the number of the first and adds a multiple of it to the number of the
second, so both numbers are known for every generation. Where no rule is empty the lengths never shrink, and the
bounded expansion fails only if its last generation is over the limit. -/

namespace TurtleChain.Table

section

variable (table : Table)

/-- The next pass replaces the operation. -/
def replaces (op : Operation) : Bool :=
  table.contains op.name

/-- An operation of this kind that stays in every pass. -/
def keeps (kind : Operation → Bool) (op : Operation) : Bool :=
  !table.replaces op && kind op

/-- Every rule puts in `multiple` operations that are replaced, and `added` operations of the kind that stay. -/
structure Uniform (kind : Operation → Bool) (multiple added : Nat) : Prop where
  replaces : ∀ name body, table.get? name = some body → body.countP table.replaces = multiple
  keeps : ∀ name body, table.get? name = some body → body.countP (table.keeps kind) = added

theorem replacement_cases (op : Operation) :
    (table.replaces op = true ∧ table.get? op.name = some (table.replacement op)) ∨
      (table.replaces op = false ∧ table.replacement op = [op]) := by
  unfold replaces contains NameMap.contains replacement get?
  cases table.rules.get? op.name with
  | none => exact Or.inr ⟨rfl, rfl⟩
  | some body => exact Or.inl ⟨rfl, rfl⟩

end

variable {table : Table} {kind : Operation → Bool} {multiple added : Nat}

/-! ### One pass -/

namespace Uniform

variable (h : table.Uniform kind multiple added)

include h

theorem countP_replaces_rewrite (ops : Sequence) :
    (table.rewrite ops).countP table.replaces = ops.countP table.replaces * multiple := by
  induction ops with
  | nil => exact (Nat.zero_mul multiple).symm
  | cons op ops ih =>
      rw [rewrite_cons, List.countP_append, ih, List.countP_cons, Nat.add_mul, Nat.add_comm]
      congr 1
      rcases table.replacement_cases op with ⟨hop, hget⟩ | ⟨hop, hstays⟩
      · rw [if_pos hop, Nat.one_mul, h.replaces _ _ hget]
      · rw [hstays, List.countP_singleton, hop]
        exact (Nat.zero_mul multiple).symm

theorem countP_keeps_rewrite (ops : Sequence) :
    (table.rewrite ops).countP (table.keeps kind) =
      ops.countP (table.keeps kind) + ops.countP table.replaces * added := by
  induction ops with
  | nil => simp
  | cons op ops ih =>
      rw [rewrite_cons, List.countP_append, ih, List.countP_cons, List.countP_cons]
      rcases table.replacement_cases op with ⟨hop, hget⟩ | ⟨hop, hstays⟩
      · have hkeeps : table.keeps kind op = false := by rw [Table.keeps, hop, Bool.not_true, Bool.false_and]
        rw [h.keeps _ _ hget, hop, hkeeps, if_pos rfl, if_neg Bool.false_ne_true, Nat.add_mul]
        omega
      · rw [hstays, List.countP_singleton, hop, if_neg Bool.false_ne_true, Nat.add_zero]
        omega

/-! ### Generations -/

theorem countP_replaces_generation (seed : Sequence) (n : Nat) :
    (table.generation seed n).countP table.replaces = seed.countP table.replaces * multiple ^ n := by
  induction n with
  | zero => exact (Nat.mul_one _).symm
  | succ n ih => rw [generation, h.countP_replaces_rewrite, ih, pow_succ, Nat.mul_assoc]

theorem countP_keeps_generation (seed : Sequence) (n : Nat) :
    (table.generation seed n).countP (table.keeps kind) =
      seed.countP (table.keeps kind) + seed.countP table.replaces * added * ∑ i ∈ Finset.range n, multiple ^ i := by
  induction n with
  | zero => rw [generation, Finset.range_zero, Finset.sum_empty, Nat.mul_zero, Nat.add_zero]
  | succ n ih =>
      rw [generation, h.countP_keeps_rewrite, ih, h.countP_replaces_generation, Finset.sum_range_succ]
      ring

/-- The operations of a kind that either all the replaced operations have or none of them. -/
theorem countP_generation {all : Bool} (hall : ∀ op, table.replaces op = true → kind op = all) (seed : Sequence)
    (n : Nat) :
    (table.generation seed n).countP kind =
      (if all then seed.countP table.replaces * multiple ^ n else 0) +
        (seed.countP (table.keeps kind) +
          seed.countP table.replaces * added * ∑ i ∈ Finset.range n, multiple ^ i) := by
  have hsplit : ∀ ops : Sequence, ops.countP kind =
      (if all then ops.countP table.replaces else 0) + ops.countP (table.keeps kind) := by
    intro ops
    induction ops with
    | nil => cases all <;> rfl
    | cons op ops ih =>
        rw [List.countP_cons, List.countP_cons, List.countP_cons, ih, Table.keeps]
        cases hop : table.replaces op with
        | false => cases all <;> simp [Nat.add_assoc]
        | true => cases all <;> simp [hall op hop, Nat.add_right_comm]
  rw [hsplit, h.countP_replaces_generation, h.countP_keeps_generation]

end Uniform

/-! ### The bounded expansion -/

section

variable (h : ∀ name body, table.get? name = some body → body ≠ []) (seed : Sequence)

include h

theorem length_le_rewrite (ops : Sequence) : ops.length ≤ (table.rewrite ops).length := by
  induction ops with
  | nil => exact Nat.le_refl 0
  | cons op ops ih =>
      have hone : 1 ≤ (table.replacement op).length := by
        rcases table.replacement_cases op with ⟨-, hget⟩ | ⟨-, hstays⟩
        · exact List.length_pos_iff.mpr (h _ _ hget)
        · rw [hstays, List.length_singleton]
      rw [rewrite_cons, List.length_append, List.length_cons]
      omega

theorem length_generation_mono : Monotone fun n => (table.generation seed n).length :=
  monotone_nat_of_le_succ fun n => length_le_rewrite h (table.generation seed n)

/-- With rules that are not empty it is enough to look at the last generation. -/
theorem expand_eq_error_iff (limit depth : Nat) :
    (∃ error, table.expand limit seed depth = .error error) ↔ limit < (table.generation seed depth).length := by
  rcases table.expand_outcome limit seed depth with ⟨hwithin, hok⟩ | ⟨k, hfirst, herror⟩
  · rw [hok]
    refine iff_of_false ?_ (Nat.not_lt_of_le (hwithin depth (Nat.zero_le depth) (Nat.le_refl depth)))
    rintro ⟨error, herror⟩
    cases herror
  · rw [herror]
    exact iff_of_true ⟨_, rfl⟩ (hfirst.limit_lt.trans_le (length_generation_mono h seed hfirst.number_le))

end

end TurtleChain.Table
