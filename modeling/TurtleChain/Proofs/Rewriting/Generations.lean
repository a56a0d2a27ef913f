import Mathlib
import TurtleChain.Rewriting.Generation

/-! The generations of a sequence. A pass looks at one operation at a time, so it takes appended sequences to
appended ones, and the operations of a sequence grow apart from each other at every depth. The bounded expansion
counts before each pass and stops at the first generation that is over the limit, and nowhere else. -/

namespace TurtleChain.Table

variable (table : Table)

/-! ### One pass -/

@[simp] theorem rewrite_nil : table.rewrite [] = [] := rfl

theorem rewrite_cons (op : Operation) (ops : Sequence) :
    table.rewrite (op :: ops) = table.replacement op ++ table.rewrite ops :=
  List.flatMap_cons

theorem rewrite_append (ops ops' : Sequence) :
    table.rewrite (ops ++ ops') = table.rewrite ops ++ table.rewrite ops' :=
  List.flatMap_append

theorem length_replacement (op : Operation) :
    (table.replacement op).length = ((table.get? op.name).map List.length).getD 1 := by
  unfold replacement
  cases table.get? op.name with
  | none => rfl
  | some body => rfl

/-- The length that is counted before a pass is the one that the pass gives. -/
theorem rewriteLength_eq (ops : Sequence) : table.rewriteLength ops = (table.rewrite ops).length := by
  have hfold : ∀ total,
      ops.foldl (fun total op => total + ((table.get? op.name).map List.length).getD 1) total =
        total + (table.rewrite ops).length := by
    induction ops with
    | nil =>
        intro total
        rfl
    | cons op ops ih =>
        intro total
        rw [List.foldl_cons, ih, rewrite_cons, List.length_append, length_replacement, Nat.add_assoc]
  rw [rewriteLength, hfold, Nat.zero_add]

/-! ### Generations -/

/-- The first pass may as well be the one that is set apart. -/
theorem generation_rewrite (seed : Sequence) (n : Nat) :
    table.generation (table.rewrite seed) n = table.generation seed (n + 1) := by
  induction n with
  | zero => rfl
  | succ n ih => rw [generation, ih, ← generation]

/-- The generation with this number is the next one. -/
structure Ahead (seed : Sequence) (number : Nat) (items : Generations) : Prop where
  table_eq : items.table = table
  next_eq : items.next.1 = table.generation seed number

section

variable {table} {seed : Sequence} {number : Nat} {items : Generations} (h : table.Ahead seed number items)

include h

/-- Behind a generation the one with the next number is ahead. -/
theorem Ahead.next : table.Ahead seed (number + 1) items.next.2 := by
  refine ⟨h.table_eq, ?_⟩
  rw [generation, ← h.next_eq, ← h.table_eq]
  rfl

theorem Ahead.take (n : Nat) : items.take n = (List.range' number n).map (table.generation seed) := by
  induction n generalizing number items with
  | zero => rfl
  | succ n ih =>
      show items.next.1 :: items.next.2.take n = _
      rw [h.next_eq, ih h.next, List.range'_succ, List.map_cons]

end

theorem generations_eq_map (seed : Sequence) (n : Nat) :
    table.generations seed n = (List.range n).map (table.generation seed) := by
  have hseed : table.Ahead seed 0 { table := table, current := seed } := ⟨rfl, rfl⟩
  rw [generations, hseed.take, List.range_eq_range']

theorem generation_nil (n : Nat) : table.generation [] n = [] := by
  induction n with
  | zero => rfl
  | succ n ih => rw [generation, ih, rewrite_nil]

theorem generation_append (ops ops' : Sequence) (n : Nat) :
    table.generation (ops ++ ops') n = table.generation ops n ++ table.generation ops' n := by
  induction n with
  | zero => rfl
  | succ n ih => rw [generation, ih, rewrite_append, ← generation, ← generation]

/-- Each operation grows apart from the others. -/
theorem generation_eq_flatMap (ops : Sequence) (n : Nat) :
    table.generation ops n = ops.flatMap fun op => table.generation [op] n := by
  induction ops with
  | nil => exact table.generation_nil n
  | cons op ops ih => rw [List.flatMap_cons, ← ih, ← generation_append, List.singleton_append]

theorem generation_singleton_succ (op : Operation) (n : Nat) :
    table.generation [op] (n + 1) = table.generation (table.replacement op) n := by
  rw [← generation_rewrite, rewrite_cons, rewrite_nil, List.append_nil]

/-- Without a rule an operation stays what it is. -/
theorem generation_singleton_of_none {op : Operation} (h : table.get? op.name = none) (n : Nat) :
    table.generation [op] n = [op] := by
  have hreplacement : table.replacement op = [op] := by rw [replacement, h, Option.getD_none]
  induction n with
  | zero => rfl
  | succ n ih => rw [generation_singleton_succ, hreplacement, ih]

theorem generation_of_none {ops : Sequence} (h : ∀ op ∈ ops, table.get? op.name = none) (n : Nat) :
    table.generation ops n = ops := by
  induction ops with
  | nil => exact table.generation_nil n
  | cons op ops ih =>
      obtain ⟨hop, hops⟩ := List.forall_mem_cons.mp h
      rw [← List.singleton_append, generation_append, table.generation_singleton_of_none hop, ih hops]

/-- All passes but the first can be made on what each operation is replaced by, whatever stands around it and
whatever its argument is. -/
theorem generation_context_free :
    (∀ ops n, table.generation ops (n + 1) = ops.flatMap fun op =>
        match table.get? op.name with
        | some body => table.generation body n
        | none => [op]) ∧
      ∀ ops ops' n, table.generation (ops ++ ops') n = table.generation ops n ++ table.generation ops' n := by
  refine ⟨fun ops n => ?_, table.generation_append⟩
  rw [generation_eq_flatMap]
  congr 1
  funext op
  cases h : table.get? op.name with
  | none => exact table.generation_singleton_of_none h (n + 1)
  | some body => rw [generation_singleton_succ, replacement, h, Option.getD_some]

section

variable {table} {P : Operation → Prop}
  (hrules : ∀ name body, table.get? name = some body → ∀ op ∈ body, P op)

include hrules

/-- Behind a pass there is what the rules put in, and what has no rule. -/
theorem forall_mem_rewrite {ops : Sequence} (hstays : ∀ op ∈ ops, table.get? op.name = none → P op) :
    ∀ op ∈ table.rewrite ops, P op := by
  intro op hop
  obtain ⟨origin, horigin, hop⟩ := List.mem_flatMap.mp hop
  unfold replacement at hop
  cases hget : table.get? origin.name with
  | none =>
      rw [hget] at hop
      rw [List.mem_singleton.mp hop]
      exact hstays origin horigin hget
  | some body =>
      rw [hget] at hop
      exact hrules _ _ hget op hop

theorem forall_mem_generation {seed : Sequence} (hstays : ∀ op ∈ seed, table.get? op.name = none → P op) (n : Nat) :
    ∀ op ∈ table.generation seed (n + 1), P op := by
  induction n with
  | zero => exact forall_mem_rewrite hrules hstays
  | succ n ih => exact forall_mem_rewrite hrules fun op hop _ => ih op hop

end

/-! ### Bounded expansion -/

section

variable (limit : Nat) (seed : Sequence)

theorem expandFrom_succ (number : Nat) (ops : Sequence) (depth : Nat) :
    table.expandFrom limit number ops (depth + 1) =
      if limit < (table.rewrite ops).length then .error (.tooLong number (table.rewrite ops).length limit)
      else table.expandFrom limit (number + 1) (table.rewrite ops) depth := by
  rw [expandFrom, rewriteLength_eq]

/-- The generations with a number from `first` up to `last` are within the limit. -/
def Within (first last : Nat) : Prop :=
  ∀ k, first ≤ k → k ≤ last → (table.generation seed k).length ≤ limit

/-- Of the generations with a number from `first` up to `last`, that is the first over the limit. -/
structure FirstOver (first last k : Nat) : Prop where
  le_number : first ≤ k
  number_le : k ≤ last
  limit_lt : limit < (table.generation seed k).length
  below : ∀ j, first ≤ j → j < k → (table.generation seed j).length ≤ limit

variable {table limit seed} in
theorem FirstOver.of_succ {first last k : Nat} (h : table.FirstOver limit seed (first + 1) last k)
    (hfirst : (table.generation seed first).length ≤ limit) : table.FirstOver limit seed first last k := by
  refine ⟨Nat.le_of_succ_le h.le_number, h.number_le, h.limit_lt, fun j hle hlt => ?_⟩
  rcases Nat.eq_or_lt_of_le hle with rfl | hlt'
  · exact hfirst
  · exact h.below j hlt' hlt

/-- The passes that are left lead to the last generation, or the first one that is over the limit is the error. -/
theorem expandFrom_outcome (number depth : Nat) :
    (table.Within limit seed (number + 1) (number + depth) ∧
        table.expandFrom limit (number + 1) (table.generation seed number) depth =
          .ok (table.generation seed (number + depth))) ∨
      ∃ k, table.FirstOver limit seed (number + 1) (number + depth) k ∧
        table.expandFrom limit (number + 1) (table.generation seed number) depth =
          .error (.tooLong k (table.generation seed k).length limit) := by
  induction depth generalizing number with
  | zero =>
      refine Or.inl ⟨fun k hle hle' => ?_, rfl⟩
      omega
  | succ depth ih =>
      rw [expandFrom_succ, ← generation]
      by_cases hover : limit < (table.generation seed (number + 1)).length
      · rw [if_pos hover]
        refine Or.inr ⟨number + 1, ⟨Nat.le_refl _, by omega, hover, fun j hle hlt => ?_⟩, rfl⟩
        omega
      · have hnext : (table.generation seed (number + 1)).length ≤ limit := Nat.le_of_not_lt hover
        rw [if_neg hover, show number + (depth + 1) = number + 1 + depth by omega]
        rcases ih (number + 1) with ⟨hwithin, hok⟩ | ⟨k, hfirst, herror⟩
        · refine Or.inl ⟨fun k hle hle' => ?_, hok⟩
          rcases Nat.eq_or_lt_of_le hle with rfl | hlt
          · exact hnext
          · exact hwithin k hlt hle'
        · exact Or.inr ⟨k, hfirst.of_succ hnext, herror⟩

/-- The seed is looked at like the generations behind it. -/
theorem expand_outcome (depth : Nat) :
    (table.Within limit seed 0 depth ∧ table.expand limit seed depth = .ok (table.generation seed depth)) ∨
      ∃ k, table.FirstOver limit seed 0 depth k ∧
        table.expand limit seed depth = .error (.tooLong k (table.generation seed k).length limit) := by
  by_cases hseed : limit < seed.length
  · refine Or.inr ⟨0, ⟨Nat.le_refl 0, Nat.zero_le depth, hseed, fun j _ hlt => ?_⟩, ?_⟩
    · exact absurd hlt (Nat.not_lt_zero j)
    · rw [expand, if_pos hseed, generation]
  · have hle : (table.generation seed 0).length ≤ limit := Nat.le_of_not_lt hseed
    have hrun := table.expandFrom_outcome limit seed 0 depth
    rw [Nat.zero_add, Nat.zero_add] at hrun
    rw [expand, if_neg hseed]
    rcases hrun with ⟨hwithin, hok⟩ | ⟨k, hfirst, herror⟩
    · refine Or.inl ⟨fun k _ hle' => ?_, hok⟩
      rcases Nat.eq_zero_or_pos k with rfl | hpos
      · exact hle
      · exact hwithin k hpos hle'
    · exact Or.inr ⟨k, hfirst.of_succ hle, herror⟩

/-- A generation that is over the limit is not made up for by a shorter one behind it. -/
example : expand ⟨⟨[("A", [⟨"B", none⟩, ⟨"B", none⟩, ⟨"B", none⟩]), ("B", [])]⟩⟩ 2 [⟨"A", none⟩] 2 =
    .error (.tooLong 1 3 2) := by
  rfl

/-- The expansion gives the generation at the depth if that and all before it are within the limit. Otherwise it
names the first that is not, with its length. Beside it: which the generations are, and that a pass has the
length that was counted for it. -/
theorem expand_eq_iff (depth : Nat) :
    (∀ ops, table.expand limit seed depth = .ok ops ↔
        (∀ k ≤ depth, (table.generation seed k).length ≤ limit) ∧ ops = table.generation seed depth) ∧
      (∀ error, table.expand limit seed depth = .error error ↔
        ∃ k ≤ depth, limit < (table.generation seed k).length ∧
          (∀ j < k, (table.generation seed j).length ≤ limit) ∧
          error = .tooLong k (table.generation seed k).length limit) ∧
      (∀ n, table.generations seed n = (List.range n).map (table.generation seed)) ∧
      ∀ ops, table.rewriteLength ops = (table.rewrite ops).length := by
  refine ⟨fun ops => ?_, fun error => ?_, table.generations_eq_map seed, table.rewriteLength_eq⟩
  · rcases table.expand_outcome limit seed depth with ⟨hwithin, hok⟩ | ⟨k, hfirst, herror⟩
    · rw [hok, Except.ok.injEq]
      refine ⟨fun h => ⟨fun k hk => hwithin k (Nat.zero_le k) hk, h.symm⟩, fun h => h.2.symm⟩
    · rw [herror]
      refine iff_of_false (fun h => by cases h) fun h => ?_
      exact Nat.not_lt_of_le (h.1 k hfirst.number_le) hfirst.limit_lt
  · rcases table.expand_outcome limit seed depth with ⟨hwithin, hok⟩ | ⟨k, hfirst, herror⟩
    · rw [hok]
      refine iff_of_false (fun h => by cases h) ?_
      rintro ⟨k, hk, hlt, -⟩
      exact Nat.not_lt_of_le (hwithin k (Nat.zero_le k) hk) hlt
    · rw [herror, Except.error.injEq]
      constructor
      · rintro rfl
        exact ⟨k, hfirst.number_le, hfirst.limit_lt, fun j hj => hfirst.below j (Nat.zero_le j) hj, rfl⟩
      · rintro ⟨k', -, hlt, hbelow, rfl⟩
        rcases Nat.lt_trichotomy k k' with hk | rfl | hk
        · exact absurd hfirst.limit_lt (Nat.not_lt_of_le (hbelow k hk))
        · rfl
        · exact absurd hlt (Nat.not_lt_of_le (hfirst.below k' (Nat.zero_le k') hk))

end

end TurtleChain.Table
