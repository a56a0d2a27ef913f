import TurtleChain.Proofs.Config.Generation
import TurtleChain.Proofs.Walk.Dropped

/-! Walks over generated sequences. The ant knows every operation that curves are written with and can use its
argument, so it drops nothing that is generated. -/

namespace TurtleChain

theorem Operation.Written.not_isDropped {op : Operation} (h : op.Written) : ¬ op.IsDropped := by
  cases h with
  | bare hname => rcases hname with rfl | rfl <;> decide
  | color tag => cases tag <;> decide
  | @number name x hname hx =>
      have hnames : ∀ name ∈ numberNames, name ∈ Ant.actionNames ∧ name ≠ "C" := by decide
      obtain ⟨haction, hcolor⟩ := hnames name hname
      have hnumber : (ofNumber name x).arg.any Arg.isNumber = true := Arg.isNumber_ofNumber x
      rintro (hunknown | ⟨-, hmissing⟩ | ⟨hname, -⟩)
      · exact hunknown haction
      · rw [hnumber] at hmissing
        cases hmissing
      · exact hcolor hname

theorem Walk.skipped_of_written {ops : Sequence} (h : ∀ op ∈ ops, op.Written) (trig : Trigonometry)
    (options : Walk.Options) :
    (Walk.alongBy trig options ops).report.tally.skipped = 0 ∧
      (Walk.alongBy trig options ops).report.tally.steps = ops.length := by
  refine ⟨?_, Walk.steps_alongBy trig options ops⟩
  rw [Walk.skipped_alongBy, List.countP_eq_zero]
  exact fun op hop hdropped => (h op hop).not_isDropped (of_decide_eq_true hdropped)

/-- Nothing that is generated is dropped on a walk, whichever random words the jitter was drawn from. -/
theorem Config.walk_skips_nothing {random : RandomWords} {config : Config} {g : Generated}
    (h : config.generateBy random = .ok g) (options : Walk.Options) :
    (Walk.along options g.sequence).report.tally.skipped = 0 ∧
      (Walk.along options g.sequence).report.tally.steps = g.sequence.length :=
  Walk.skipped_of_written (written_of_generateBy h) .library options

/-- A Hilbert curve after one pass. -/
theorem Config.walk_skips_nothing_one_pass :
    ∃ g, Config.generate { iterations := some 1 } = .ok g ∧ g.sequence.length = 13 ∧
      (Walk.along {} g.sequence).report.tally.skipped = 0 ∧ (Walk.along {} g.sequence).report.tally.steps = 13 := by
  have hside : Parameter.sideLength.checkLength 1 = .ok () :=
    Parameter.checkLength_eq_ok_iff.mpr (by decide +kernel)
  obtain ⟨table, htable, hhas⟩ := Family.hilbertTable_eq hside
  have hconfig : Config.tableBy ChaCha.words { iterations := some 1 } = .ok table :=
    (tableBy_of_ne_generic _ _ (by decide)).trans htable
  have hgenerate := @generateBy_of_table ChaCha.words { iterations := some 1 } hside table hconfig
  have hpass : table.generation (Family.hilbert.seedOps 1) 1 = Family.hilbertOps 1 90 "A" "B" := by
    rw [Table.generation, Table.generation, Family.seedOps, Table.rewrite_cons, Table.rewrite_nil, List.append_nil,
      Table.replacement, hhas.get?]
    rfl
  have hexpand : table.expand 1000000 (Family.hilbert.seedOps 1) 1 = .ok (Family.hilbertOps 1 90 "A" "B") := by
    rcases table.expand_outcome 1000000 (Family.hilbert.seedOps 1) 1 with ⟨-, hok⟩ | ⟨k, hfirst, -⟩
    · rw [hok, hpass]
    · exfalso
      have hlt := hfirst.limit_lt
      rcases Nat.le_one_iff_eq_zero_or_eq_one.mp hfirst.number_le with rfl | rfl
      · rw [Table.generation] at hlt
        exact absurd hlt (by decide)
      · rw [hpass] at hlt
        exact absurd hlt (by decide)
  have hok : Config.generate { iterations := some 1 } = .ok ⟨table, Family.hilbertOps 1 90 "A" "B"⟩ :=
    hgenerate.trans (congrArg (fun x => (x.mapError Failure.rewrite).map (Generated.mk table)) hexpand)
  obtain ⟨hskipped, hsteps⟩ := walk_skips_nothing hok {}
  exact ⟨_, hok, rfl, hskipped, hsteps⟩

end TurtleChain
