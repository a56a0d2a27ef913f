import TurtleChain.Config.Generate
import TurtleChain.Proofs.Curve.Layout
import TurtleChain.Proofs.Curve.Rules
import TurtleChain.Proofs.Rewriting.Generations

/-! What is generated. The seed and the rules of every family are made of the operations that curves are written
with, passes put in no others, and so every generated sequence is made of them. -/

namespace TurtleChain

namespace Table

/-- All rules are made of operations that curves are written with. -/
def Written (table : Table) : Prop :=
  ∀ name ops, table.get? name = some ops → ∀ op ∈ ops, op.Written

theorem Has.writtenRules {table : Table} {rules : List (String × Sequence)} (h : table.Has rules) : table.Written := by
  intro name ops hget op hop
  rw [h.get?] at hget
  obtain ⟨rules', rules'', rfl, -⟩ := List.lookup_eq_some_iff.mp hget
  exact h.written (name, ops) (by simp) op hop

variable {table : Table} (h : table.Written)

include h

/-- A pass only puts in what rules are made of. -/
theorem written_generation {seed : Sequence} (hseed : ∀ op ∈ seed, op.Written) (n : Nat) :
    ∀ op ∈ table.generation seed n, op.Written := by
  cases n with
  | zero => exact hseed
  | succ n => exact forall_mem_generation h (fun op hop _ => hseed op hop) n

end Table

namespace Family

theorem checkSide_of_seed {family : Family} {side : Float} {ops : Sequence} (h : family.seed side = .ok ops) :
    Parameter.sideLength.checkLength side = .ok () := by
  cases hcheck : Parameter.sideLength.checkLength side with
  | error e =>
      rw [seed_of_error family hcheck] at h
      cases h
  | ok => rfl

end Family

namespace ESequenceShape

variable {p : ESequenceShape} {jitter : Jitter} {ops : Sequence}

/-- A sequence that was put together is one of operations that curves are written with. -/
theorem written_of_sequence (h : p.sequence jitter = .ok ops) : ∀ op ∈ ops, op.Written := by
  obtain ⟨hvalid, hall, rfl⟩ := blocks_of_sequence h
  exact written_blocksOps hvalid.angle hvalid.minorLength (fun i _ hi => hall i (by omega)) p.dir

end ESequenceShape

namespace Family

theorem genericTable_of_ok {p : ESequenceShape} {jitter : Jitter} {ops : Sequence} (h : p.sequence jitter = .ok ops) :
    ∃ table, genericTable p jitter = .ok table ∧ table.Has [("D", ops)] := by
  refine ⟨⟨Table.empty.rules.put "D" ops⟩, ?_, fun key => ?_, ?_⟩
  · rw [genericTable, h]
    rfl
  · rw [Table.get?, NameMap.get?_put, NameMap.lookup_cons]
    rfl
  · exact List.forall_mem_singleton.mpr (ESequenceShape.written_of_sequence h)

theorem genericTable_of_error {p : ESequenceShape} {jitter : Jitter} {e : CurveError}
    (h : p.sequence jitter = .error e) : genericTable p jitter = .error e := by
  rw [genericTable, h]
  rfl

end Family

namespace Config

variable (random : RandomWords) (config : Config)

theorem tableBy_of_generic (h : config.family = .generic) :
    config.tableBy random = Family.genericTable config.eSequence (config.jitterBy random) := by
  rw [tableBy, h]

theorem tableBy_of_ne_generic (h : config.family ≠ .generic) :
    config.tableBy random = config.family.table config.sideLength := by
  unfold tableBy
  split
  · next hfamily => exact absurd hfamily h
  · rfl

variable {random config}

theorem written_tableBy (hside : Parameter.sideLength.checkLength config.sideLength = .ok ()) {table : Table}
    (h : config.tableBy random = .ok table) : table.Written := by
  by_cases hfamily : config.family = .generic
  · rw [tableBy_of_generic random config hfamily] at h
    cases hsequence : config.eSequence.sequence (config.jitterBy random) with
    | error e =>
        rw [Family.genericTable_of_error hsequence] at h
        cases h
    | ok ops =>
        obtain ⟨table', htable, hhas⟩ := Family.genericTable_of_ok hsequence
        rw [htable, Except.ok.injEq] at h
        exact h ▸ hhas.writtenRules
  · rw [tableBy_of_ne_generic random config hfamily] at h
    obtain ⟨table', htable, hhas⟩ := Family.table_eq hside hfamily
    rw [htable, Except.ok.injEq] at h
    exact h ▸ hhas.writtenRules

/-- Every operation that is generated is one that curves are written with. -/
theorem written_of_generateBy {g : Generated} (h : config.generateBy random = .ok g) :
    ∀ op ∈ g.sequence, op.Written := by
  obtain ⟨seed, hseed, h⟩ := exists_of_bind_eq_ok h
  obtain ⟨table, htable, h⟩ := exists_of_bind_eq_ok h
  obtain ⟨ops, hops, h⟩ := exists_of_bind_eq_ok h
  have hseed := eq_ok_of_mapError hseed
  have hside := Family.checkSide_of_seed hseed
  rw [Family.seed_eq hside, Except.ok.injEq] at hseed
  have hwritten := Table.written_generation (written_tableBy hside (eq_ok_of_mapError htable))
    (hseed ▸ Family.written_seedOps hside config.family) config.passes
  rw [← Except.ok.inj h]
  rcases table.expand_outcome config.maxOperations seed config.passes with ⟨-, hok⟩ | ⟨k, -, herror⟩
  · rw [hok] at hops
    rw [← Except.ok.inj (eq_ok_of_mapError hops)]
    exact hwritten
  · rw [herror] at hops
    cases hops

theorem generateBy_of_table (hside : Parameter.sideLength.checkLength config.sideLength = .ok ()) {table : Table}
    (htable : config.tableBy random = .ok table) :
    config.generateBy random = ((table.expand config.maxOperations (config.family.seedOps config.sideLength)
      config.passes).mapError .rewrite).map (Generated.mk table) := by
  unfold generateBy
  rw [Family.seed_eq hside, htable]
  show (((table.expand config.maxOperations (config.family.seedOps config.sideLength)
      config.passes).mapError Failure.rewrite) >>= fun sequence => pure (Generated.mk table sequence)) = _
  cases (table.expand config.maxOperations (config.family.seedOps config.sideLength)
      config.passes).mapError Failure.rewrite with
  | error e => rfl
  | ok ops => rfl

/-- With a table, generating only fails where a generation is over the limit. -/
theorem generateBy_within_limit (hside : Parameter.sideLength.checkLength config.sideLength = .ok ()) {table : Table}
    (htable : config.tableBy random = .ok table) :
    (∃ g, config.generateBy random = .ok g) ∨
      ∃ number ≤ config.passes, ∃ length, config.maxOperations < length ∧
        length = (table.generation (config.family.seedOps config.sideLength) number).length ∧
        config.generateBy random = .error (.rewrite (.tooLong number length config.maxOperations)) := by
  rw [generateBy_of_table hside htable]
  rcases table.expand_outcome config.maxOperations (config.family.seedOps config.sideLength) config.passes with
    ⟨-, hok⟩ | ⟨k, hfirst, herror⟩
  · rw [hok]
    exact Or.inl ⟨_, rfl⟩
  · rw [herror]
    exact Or.inr ⟨k, hfirst.number_le, _, hfirst.limit_lt, rfl, rfl⟩

end Config

end TurtleChain
