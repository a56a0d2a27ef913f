import TurtleChain.Proofs.Config.Generation
import TurtleChain.Proofs.Curve.Jitter

/-! What the validation of a configuration promises. A valid configuration can be generated, up to the limit on
lengths, for every family but the generic one. There the odd blocks have a long side of their own, made of the
bends and the minor length, that is only checked when it is drawn; the jitter takes no length out of its range. -/

namespace TurtleChain

open Binary64

namespace ESequenceShape

variable (p : ESequenceShape)

/-- The long side of the odd blocks, across the major length. -/
def crossLength : Float :=
  Float.ofNat p.bends.toNat * 2 * p.minorLength

section

variable {p} {jitter : Jitter} (hvalidate : p.validate = .ok ()) (hjitter : ∀ n, jitter n ∈ Jitter.multipliers)

include hvalidate hjitter

theorem checkSides_of_even {block : Nat} (h : block % 2 = 0) : p.checkSides block (jitter block) = .ok () := by
  have hvalid := valid_of_validate hvalidate
  rw [checkSides_eq_ok_iff, sides, if_pos h]
  exact ⟨Jitter.checkLength_mul (hjitter block) hvalid.majorLength, hvalid.minorLength⟩

theorem checkSides_of_odd {block : Nat} (h : ¬block % 2 = 0) :
    p.checkSides block (jitter block) = Parameter.majorLength.checkLength p.crossLength := by
  have hvalid := valid_of_validate hvalidate
  have hshort := Jitter.checkLength_mul (hjitter block) hvalid.minorLength
  unfold checkSides
  rw [if_neg h]
  show (Parameter.majorLength.checkLength p.crossLength >>= fun _ =>
    Parameter.minorLength.checkLength (jitter block * p.minorLength)) = _
  rw [hshort]
  cases Parameter.majorLength.checkLength p.crossLength with
  | error e => rfl
  | ok => rfl

/-- The only length that may be out of range is the long side of the odd blocks. -/
theorem sequence_of_cross_ok (hcross : Parameter.majorLength.checkLength p.crossLength = .ok ()) :
    ∃ ops, p.sequence jitter = .ok ops ∧ p.operationCount = .ok ops.length := by
  refine ⟨_, sequence_of_ok hvalidate fun block _ => ?_, operationCount_of_validate hvalidate jitter⟩
  by_cases h : block % 2 = 0
  · exact checkSides_of_even hvalidate hjitter h
  · rw [checkSides_of_odd hvalidate hjitter h, hcross]

theorem sequence_of_cross_error {e : InvalidParameter}
    (hcross : Parameter.majorLength.checkLength p.crossLength = .error e) :
    p.sequence jitter = .error (.invalid e) := by
  have hvalid := valid_of_validate hvalidate
  have hblocks : 1 < p.blocksPerRow.toNat * p.rows.toNat :=
    hvalid.blocksPerRow.1.trans_le (Nat.le_mul_of_pos_right _ hvalid.rows)
  refine sequence_of_error hvalidate hblocks (fun earlier hearlier => ?_) ?_
  · exact checkSides_of_even hvalidate hjitter (by omega)
  · rw [checkSides_of_odd hvalidate hjitter (by decide), hcross]

end

end ESequenceShape

namespace Config

/-- What the validation of a configuration lets through. -/
structure Valid (config : Config) : Prop where
  sideLength : Parameter.sideLength.checkLength config.sideLength = .ok ()
  maxOperations : 0 < config.maxOperations
  eSequence : config.eSequence.validate = .ok ()
  length : config.family = .generic → ∀ operations, config.eSequence.operationCount = .ok operations →
    operations ≤ config.maxOperations

variable {config : Config}

theorem valid_of_validate (h : config.validate = .ok ()) : config.Valid := by
  obtain ⟨_, hside, h⟩ := exists_of_bind_eq_ok h
  split at h
  · cases h
  · next hmost =>
      obtain ⟨_, heSequence, h⟩ := exists_of_bind_eq_ok h
      refine ⟨eq_ok_of_mapError hside, Nat.pos_of_ne_zero hmost, eq_ok_of_mapError heSequence, ?_⟩
      intro hfamily operations hcount
      rw [if_pos hfamily, hcount] at h
      by_contra hlt
      have herror : (if config.maxOperations < operations then
          Except.error (ConfigError.eSequenceTooLong operations config.maxOperations)
          else Except.ok ()) = Except.ok () := h
      rw [if_pos (Nat.lt_of_not_le hlt)] at herror
      cases herror

theorem jitterBy_mem (random : RandomWords) (config : Config) (n : Nat) :
    config.jitterBy random n ∈ Jitter.multipliers := by
  unfold jitterBy
  cases config.jitterSeed with
  | none => exact Jitter.fixed_one_mem n
  | some seed => exact Jitter.seededBy_mem random seed n

section

variable (h : config.validate = .ok ()) (random : RandomWords)

include h

theorem tableBy_of_valid (hcross : config.family = .generic →
    Parameter.majorLength.checkLength config.eSequence.crossLength = .ok ()) :
    ∃ table, config.tableBy random = .ok table := by
  have hvalid := valid_of_validate h
  by_cases hfamily : config.family = .generic
  · obtain ⟨ops, hsequence, -⟩ :=
      ESequenceShape.sequence_of_cross_ok hvalid.eSequence (config.jitterBy_mem random) (hcross hfamily)
    obtain ⟨table, htable, -⟩ := Family.genericTable_of_ok hsequence
    exact ⟨table, (tableBy_of_generic random config hfamily).trans htable⟩
  · obtain ⟨table, htable, -⟩ := Family.table_eq hvalid.sideLength hfamily
    exact ⟨table, (tableBy_of_ne_generic random config hfamily).trans htable⟩

/-- The long side of the odd blocks is only checked when the sequence is put together. -/
theorem generateBy_of_cross_error (hfamily : config.family = .generic) {e : InvalidParameter}
    (hcross : Parameter.majorLength.checkLength config.eSequence.crossLength = .error e) :
    config.generateBy random = .error (.build (.invalid e)) := by
  have hvalid := valid_of_validate h
  have hsequence := ESequenceShape.sequence_of_cross_error hvalid.eSequence (config.jitterBy_mem random) hcross
  unfold generateBy
  rw [Family.seed_eq hvalid.sideLength, tableBy_of_generic random config hfamily,
    Family.genericTable_of_error hsequence]
  rfl

/-- One pass replaces the one operation of the seed by the sequence, whose length the validation has counted. -/
theorem generateBy_one_pass (hfamily : config.family = .generic)
    (hcross : Parameter.majorLength.checkLength config.eSequence.crossLength = .ok ()) (hpasses : config.passes ≤ 1) :
    ∃ g, config.generateBy random = .ok g := by
  have hvalid := valid_of_validate h
  obtain ⟨ops, hsequence, hcount⟩ :=
    ESequenceShape.sequence_of_cross_ok hvalid.eSequence (config.jitterBy_mem random) hcross
  obtain ⟨table, htable, hhas⟩ := Family.genericTable_of_ok hsequence
  have hlength := hvalid.length hfamily _ hcount
  rcases generateBy_within_limit hvalid.sideLength ((tableBy_of_generic random config hfamily).trans htable) with
    hok | ⟨number, hnumber, length, hover, hgeneration, -⟩
  · exact hok
  · exfalso
    have hmost := hvalid.maxOperations
    have hreplacement : table.replacement (.ofNumber "D" 0) = ops := by
      unfold Table.replacement
      rw [hhas.get?]
      rfl
    rw [hfamily] at hgeneration
    rcases Nat.le_one_iff_eq_zero_or_eq_one.mp (hnumber.trans hpasses) with rfl | rfl
    · have hseed : length = 1 := hgeneration
      omega
    · rw [Table.generation, Table.generation, Family.seedOps, Table.rewrite_cons, Table.rewrite_nil, List.append_nil,
        hreplacement] at hgeneration
      omega

/-- A valid configuration is generated, or one of its generations is over the limit on lengths, unless its family is
the generic one and the long side of the odd blocks is out of range; that is then the error. With one pass at most
the generic family is within the limit. It does not matter which random words the jitter is drawn from. -/
theorem generate_of_validate :
    ((config.family = .generic → Parameter.majorLength.checkLength config.eSequence.crossLength = .ok ()) →
        ((∃ g, config.generateBy random = .ok g) ∨
          ∃ number length, config.generateBy random = .error (.rewrite (.tooLong number length config.maxOperations))) ∧
        (config.family = .generic → config.passes ≤ 1 → ∃ g, config.generateBy random = .ok g)) ∧
      ∀ e, config.family = .generic →
        Parameter.majorLength.checkLength config.eSequence.crossLength = .error e →
        config.generateBy random = .error (.build (.invalid e)) := by
  have hvalid := valid_of_validate h
  refine ⟨fun hcross => ⟨?_, fun hfamily => generateBy_one_pass h random hfamily (hcross hfamily)⟩,
    fun e hfamily hcross => generateBy_of_cross_error h random hfamily hcross⟩
  obtain ⟨table, htable⟩ := tableBy_of_valid h random hcross
  rcases generateBy_within_limit hvalid.sideLength htable with hok | ⟨number, -, length, -, -, herror⟩
  · exact Or.inl hok
  · exact Or.inr ⟨number, length, herror⟩

end

/-- A generic configuration with the default shape but for one length. -/
def withMinorLength (length : Float) : Config where
  family := .generic
  iterations := some 0
  eSequence := { minorLength := length }

theorem validate_withMinorLength {length : Float} (h : Parameter.minorLength.checkLength length = .ok ()) :
    (withMinorLength length).validate = .ok () := by
  have hside : Parameter.sideLength.checkLength 1 = .ok () :=
    Parameter.sideLength.checkLength_ofNat (n := 1) (by decide) (by decide)
  have hshape : (withMinorLength length).eSequence.validate = .ok () := ESequenceShape.validate_of_minorLength h
  unfold validate
  rw [hshape]
  show ((Parameter.sideLength.checkLength 1).mapError ConfigError.sideLength >>= fun _ => _) = _
  rw [hside]
  rfl

/-- The check of the lengths lets a minor length through whose eightfold, the long side of the odd blocks, is over
the limit. The generator then complains about a length that is not configured, under the name of one that is. -/
theorem generate_fails_after_validate :
    (withMinorLength 1e15).validate = .ok () ∧
      (withMinorLength 1e15).generate = .error (.build (.invalid ⟨.majorLength, .tooLong 8e15⟩)) := by
  have hvalidate : (withMinorLength 1e15).validate = .ok () :=
    validate_withMinorLength (Parameter.checkLength_eq_ok_iff.mpr (by decide +kernel))
  have hcross : (withMinorLength 1e15).eSequence.crossLength = 8e15 := eq_of_toBits (by decide +kernel)
  have hlong : Parameter.majorLength.checkLength (8e15 : Float) =
      .error ⟨.majorLength, .tooLong 8e15⟩ := by
    unfold Parameter.checkLength
    rw [if_neg (by decide +kernel), if_pos (by decide +kernel)]
  exact ⟨hvalidate, generateBy_of_cross_error hvalidate ChaCha.words rfl (by rw [hcross, hlong])⟩

/-- The default shape without a pass. -/
theorem generate_of_validate_default :
    (withMinorLength 48).validate = .ok () ∧ ∃ g, (withMinorLength 48).generate = .ok g := by
  have hvalidate : (withMinorLength 48).validate = .ok () :=
    validate_withMinorLength (Parameter.checkLength_eq_ok_iff.mpr (by decide +kernel))
  have hcross : Parameter.majorLength.checkLength (withMinorLength 48).eSequence.crossLength = .ok () :=
    Parameter.checkLength_eq_ok_iff.mpr (by decide +kernel)
  exact ⟨hvalidate, ((generate_of_validate hvalidate ChaCha.words).1 fun _ => hcross).2 rfl (by decide)⟩

end Config

end TurtleChain
