import TurtleChain.ESequence.Layout
import TurtleChain.Proofs.Curve.Counting
import TurtleChain.Proofs.Curve.Written

/-! The operations of an E-sequence. The blocks are written one after another, and each of them is checked as it is
written; so the sequence is what its blocks are put together to, or the error of the first length that does not
pass. Its length does not depend on the lengths of the blocks. -/

namespace TurtleChain.ESequenceShape

variable (p : ESequenceShape)

/-! ### Blocks -/

/-- The checks of the sides of a block, the long side first. A block along the major length has the multiplier in
its long side, and one across in its short side. -/
def checkSides (block : Nat) (multiplier : Float) : Except InvalidParameter Unit := do
  if block % 2 = 0 then
    Parameter.majorLength.checkLength (multiplier * p.majorLength)
    Parameter.minorLength.checkLength p.minorLength
  else
    Parameter.majorLength.checkLength (Float.ofNat p.bends.toNat * 2 * p.minorLength)
    Parameter.minorLength.checkLength (multiplier * p.minorLength)

def turnBy (dir : TurnSign) : Float :=
  dir.toFloat * p.startAngle

def halfBendOps (long short turn : Float) : Sequence :=
  [⟨"C", some (.ident "c1")⟩, .ofNumber "D" long, .ofNumber "T" turn, .ofNumber "D" short, .ofNumber "T" turn]

def bendsOps (dir : TurnSign) (long short : Float) : Sequence :=
  (List.replicate p.bends.toNat
    (halfBendOps long short (p.turnBy dir.flipped) ++ halfBendOps long short (p.turnBy dir))).flatten

def blockEndOps (dir : TurnSign) (long : Float) : Sequence :=
  [⟨"C", some (.ident "c2")⟩, .ofNumber "D" long, .ofNumber "D2" p.minorLength, .ofNumber "T" (p.turnBy dir)]

def rowEndOps (dir : TurnSign) (short : Float) : Sequence :=
  [⟨"C", some (.ident "c4")⟩, .ofNumber "T" (p.turnBy dir), .ofNumber "T" (p.turnBy dir), .ofNumber "D2" short,
    .ofNumber "T" (p.turnBy dir)]

def blockOps (block : Nat) (multiplier : Float) (dir : TurnSign) : Sequence :=
  p.bendsOps dir (p.sides block multiplier).1 (p.sides block multiplier).2 ++
    (if block % 2 = 0 then p.blockEndOps dir (p.sides block multiplier).1 else []) ++
    (if p.endsRow block then p.rowEndOps dir.flipped (p.sides block multiplier).2 else [])

/-- The direction behind a block. -/
def dirBehind (block : Nat) (dir : TurnSign) : TurnSign :=
  if p.endsRow block then dir.flipped else dir

/-- The operations of the given number of blocks from `block` on. -/
def blocksOps (jitter : Jitter) (block : Nat) (dir : TurnSign) : Nat → Sequence
  | 0 => []
  | left + 1 => p.blockOps block (jitter block) dir ++ blocksOps jitter (block + 1) (p.dirBehind block dir) left

section

variable {p} {long short turn : Float} (hlong : WritableNumber long) (hshort : WritableNumber short)
  (hturn : WritableNumber turn)

include hlong hshort hturn

theorem written_halfBendOps : ∀ op ∈ halfBendOps long short turn, op.Written := by
  simp only [halfBendOps, List.forall_mem_cons]
  exact ⟨.color .c1, .number (by decide) hlong, .number (by decide) hturn, .number (by decide) hshort,
    .number (by decide) hturn, by simp⟩

theorem halfBend_eq :
    halfBend (numberText long) (numberText short) (numberText turn) = Sequence.piped (halfBendOps long short turn) := by
  simp only [halfBendOps, Sequence.piped_cons, Sequence.piped_nil, Operation.render_color,
    Operation.render_ofNumber _ hlong, Operation.render_ofNumber _ hshort, Operation.render_ofNumber _ hturn]
  exact String.toList_inj.mp (by simp [halfBend])

end

theorem checkSides_eq (block : Nat) (multiplier : Float) :
    p.checkSides block multiplier =
      (Parameter.majorLength.checkLength (p.sides block multiplier).1 >>= fun _ =>
        Parameter.minorLength.checkLength (p.sides block multiplier).2) := by
  unfold checkSides sides
  split <;> rfl

theorem checkSides_eq_ok_iff {p : ESequenceShape} {block : Nat} {multiplier : Float} :
    p.checkSides block multiplier = .ok () ↔
      Parameter.majorLength.checkLength (p.sides block multiplier).1 = .ok () ∧
        Parameter.minorLength.checkLength (p.sides block multiplier).2 = .ok () := by
  rw [checkSides_eq]
  cases Parameter.majorLength.checkLength (p.sides block multiplier).1 with
  | error e => simp [bind, Except.bind]
  | ok => simp [bind, Except.bind]

theorem written_sides {p : ESequenceShape} {block : Nat} {multiplier : Float}
    (h : p.checkSides block multiplier = .ok ()) :
    WritableNumber (p.sides block multiplier).1 ∧ WritableNumber (p.sides block multiplier).2 :=
  ⟨Parameter.writable_of_checkLength (checkSides_eq_ok_iff.mp h).1,
    Parameter.writable_of_checkLength (checkSides_eq_ok_iff.mp h).2⟩

/-- The texts of a block, one for each half bend and one for each end. -/
def blockPieces (block : Nat) (multiplier : Float) (dir : TurnSign) : List String :=
  p.bendsText dir (numberText (p.sides block multiplier).1) (numberText (p.sides block multiplier).2) ++
    (if block % 2 = 0 then [p.blockEnd dir (numberText (p.sides block multiplier).1)] else []) ++
    (if p.endsRow block then [p.rowEnd dir.flipped (numberText (p.sides block multiplier).2)] else [])

/-- A block is written exactly if both of its sides pass. -/
theorem blockText_eq (block : Nat) (multiplier : Float) (dir : TurnSign) :
    p.blockText block multiplier dir =
      (p.checkSides block multiplier).map fun _ => (p.blockPieces block multiplier dir, p.dirBehind block dir) := by
  rw [checkSides_eq]
  unfold blockText blockPieces dirBehind
  rcases p.sides block multiplier with ⟨long, short⟩
  simp only
  cases Parameter.majorLength.checkLength long with
  | error e => rfl
  | ok =>
      cases Parameter.minorLength.checkLength short with
      | error e => rfl
      | ok =>
          cases p.endsRow block with
          | true => rfl
          | false => exact congrArg (fun pieces => Except.ok (pieces, dir)) (List.append_nil _).symm

section

variable {p} (hangle : checkAngle p.startAngle = .ok ())
  (hminor : Parameter.minorLength.checkLength p.minorLength = .ok ())

include hangle

theorem written_bendsOps (dir : TurnSign) {long short : Float} (hlong : WritableNumber long)
    (hshort : WritableNumber short) : ∀ op ∈ p.bendsOps dir long short, op.Written := by
  intro op hop
  obtain ⟨bend, hbend, hop⟩ := List.mem_flatten.mp hop
  rw [List.eq_of_mem_replicate hbend] at hop
  rcases List.mem_append.mp hop with hop | hop
  · exact written_halfBendOps hlong hshort (writable_turn hangle _) op hop
  · exact written_halfBendOps hlong hshort (writable_turn hangle _) op hop

theorem join_bendsText (dir : TurnSign) {long short : Float} (hlong : WritableNumber long)
    (hshort : WritableNumber short) :
    String.join (p.bendsText dir (numberText long) (numberText short)) =
      Sequence.piped (p.bendsOps dir long short) := by
  have hbend : ∀ dir, halfBend (numberText long) (numberText short) (p.turnText dir) =
      Sequence.piped (halfBendOps long short (p.turnBy dir)) :=
    fun dir => halfBend_eq hlong hshort (writable_turn hangle dir)
  simp only [bendsText, bendsOps]
  induction p.bends.toNat with
  | zero => rfl
  | succ n ih =>
      rw [List.replicate_succ, List.replicate_succ, List.flatten_cons, List.flatten_cons, String.join_append,
        Sequence.piped_append, Sequence.piped_append, ← ih, ← hbend, ← hbend]
      rfl

theorem written_rowEndOps (dir : TurnSign) {short : Float} (hshort : WritableNumber short) :
    ∀ op ∈ p.rowEndOps dir short, op.Written := by
  have hturn : WritableNumber (p.turnBy dir) := writable_turn hangle dir
  simp only [rowEndOps, List.forall_mem_cons]
  exact ⟨.color .c4, .number (by decide) hturn, .number (by decide) hturn, .number (by decide) hshort,
    .number (by decide) hturn, by simp⟩

theorem rowEnd_eq (dir : TurnSign) {short : Float} (hshort : WritableNumber short) :
    p.rowEnd dir (numberText short) = Sequence.piped (p.rowEndOps dir short) := by
  have hturn : WritableNumber (p.turnBy dir) := writable_turn hangle dir
  simp only [rowEndOps, Sequence.piped_cons, Sequence.piped_nil, Operation.render_color,
    Operation.render_ofNumber _ hshort, Operation.render_ofNumber _ hturn]
  exact String.toList_inj.mp (by simp [rowEnd, turnText, turnBy])

include hminor

theorem written_blockEndOps (dir : TurnSign) {long : Float} (hlong : WritableNumber long) :
    ∀ op ∈ p.blockEndOps dir long, op.Written := by
  simp only [blockEndOps, List.forall_mem_cons]
  exact ⟨.color .c2, .number (by decide) hlong, .number (by decide) (Parameter.writable_of_checkLength hminor),
    .number (by decide) (writable_turn hangle dir), by simp⟩

theorem blockEnd_eq (dir : TurnSign) {long : Float} (hlong : WritableNumber long) :
    p.blockEnd dir (numberText long) = Sequence.piped (p.blockEndOps dir long) := by
  have hturn : WritableNumber (p.turnBy dir) := writable_turn hangle dir
  simp only [blockEndOps, Sequence.piped_cons, Sequence.piped_nil, Operation.render_color,
    Operation.render_ofNumber _ hlong, Operation.render_ofNumber _ hturn,
    Operation.render_ofNumber _ (Parameter.writable_of_checkLength hminor)]
  exact String.toList_inj.mp (by simp [blockEnd, turnText, turnBy])

variable {block : Nat} {multiplier : Float}

theorem written_blockOps (h : p.checkSides block multiplier = .ok ()) (dir : TurnSign) :
    ∀ op ∈ p.blockOps block multiplier dir, op.Written := by
  obtain ⟨hlong, hshort⟩ := written_sides h
  intro op hop
  rcases List.mem_append.mp hop with hop | hop
  · rcases List.mem_append.mp hop with hop | hop
    · exact written_bendsOps hangle dir hlong hshort op hop
    · split at hop
      · exact written_blockEndOps hangle hminor dir hlong op hop
      · cases hop
  · split at hop
    · exact written_rowEndOps hangle dir.flipped hshort op hop
    · cases hop

theorem join_blockPieces (h : p.checkSides block multiplier = .ok ()) (dir : TurnSign) :
    String.join (p.blockPieces block multiplier dir) = Sequence.piped (p.blockOps block multiplier dir) := by
  obtain ⟨hlong, hshort⟩ := written_sides h
  rw [blockPieces, blockOps, String.join_append, String.join_append, Sequence.piped_append, Sequence.piped_append,
    join_bendsText hangle dir hlong hshort]
  congr 1
  · congr 1
    split
    · rw [String.join_cons, String.join_nil, String.append_empty, blockEnd_eq hangle hminor dir hlong]
    · rfl
  · split
    · rw [String.join_cons, String.join_nil, String.append_empty, rowEnd_eq hangle dir.flipped hshort]
    · rfl

end

/-! ### All blocks -/

section

variable {p} {jitter : Jitter}

section

variable (hangle : checkAngle p.startAngle = .ok ())
  (hminor : Parameter.minorLength.checkLength p.minorLength = .ok ())

include hangle hminor

theorem written_blocksOps {block left : Nat}
    (h : ∀ i, block ≤ i → i < block + left → p.checkSides i (jitter i) = .ok ()) (dir : TurnSign) :
    ∀ op ∈ p.blocksOps jitter block dir left, op.Written := by
  induction left generalizing block dir with
  | zero => simp [blocksOps]
  | succ left ih =>
      intro op hop
      rcases List.mem_append.mp hop with hop | hop
      · exact written_blockOps hangle hminor (h block le_rfl (by omega)) dir op hop
      · exact ih (fun i hlow hhigh => h i (by omega) (by omega)) _ op hop

/-- If all blocks pass, they are written in order. -/
theorem blocksText_of_ok {block left : Nat}
    (h : ∀ i, block ≤ i → i < block + left → p.checkSides i (jitter i) = .ok ()) (dir : TurnSign)
    (done : List (List String)) :
    ∃ pieces, p.blocksText jitter block dir done left = .ok pieces ∧
      String.join pieces = String.join done.reverse.flatten ++ Sequence.piped (p.blocksOps jitter block dir left) := by
  induction left generalizing block dir done with
  | zero => exact ⟨done.reverse.flatten, rfl, String.append_empty.symm⟩
  | succ left ih =>
      have hfirst := h block le_rfl (by omega)
      have hrest : ∀ i, block + 1 ≤ i → i < block + 1 + left → p.checkSides i (jitter i) = .ok () :=
        fun i hlow hhigh => h i (by omega) (by omega)
      obtain ⟨pieces, htext, hjoin⟩ := ih hrest (p.dirBehind block dir)
        (p.blockPieces block (jitter block) dir :: done)
      refine ⟨pieces, ?_, ?_⟩
      · rw [blocksText, blockText_eq, hfirst]
        exact htext
      · rw [hjoin, List.reverse_cons, List.flatten_append, String.join_append, List.flatten_singleton,
          join_blockPieces hangle hminor hfirst, blocksOps, Sequence.piped_append, String.append_assoc]

end

/-- The first block that does not pass ends the writing. -/
theorem blocksText_of_error {block left n : Nat} (hlow : block ≤ n) (hhigh : n < block + left)
    (h : ∀ i, block ≤ i → i < n → p.checkSides i (jitter i) = .ok ()) {e : InvalidParameter}
    (he : p.checkSides n (jitter n) = .error e) (dir : TurnSign) (done : List (List String)) :
    p.blocksText jitter block dir done left = .error e := by
  induction left generalizing block dir done with
  | zero => omega
  | succ left ih =>
      rw [blocksText, blockText_eq]
      rcases Nat.eq_or_lt_of_le hlow with rfl | hlt
      · rw [he]
        rfl
      · rw [h block le_rfl hlt]
        exact ih hlt (by omega) (fun i hlow => h i (by omega)) _ _

end

/-! ### Lengths -/

theorem length_blockOps (block : Nat) (multiplier : Float) (dir : TurnSign) :
    (p.blockOps block multiplier dir).length =
      10 * p.bends.toNat + (if block % 2 = 0 then 4 else 0) + (if p.endsRow block then 5 else 0) := by
  have hbends : ∀ long short, (p.bendsOps dir long short).length = 10 * p.bends.toNat := by
    intro long short
    rw [bendsOps, List.length_flatten, List.map_replicate, List.sum_replicate, smul_eq_mul, Nat.mul_comm]
    rfl
  rw [blockOps, List.length_append, List.length_append, hbends]
  congr 1
  · congr 1
    split <;> rfl
  · split <;> rfl

/-- The operations of the first blocks. -/
def lengthUpTo (block : Nat) : Nat :=
  10 * p.bends.toNat * block + 4 * Nat.count (· % 2 = 0) block + 5 * Nat.count (p.endsRow · = true) block

theorem lengthUpTo_succ (block : Nat) (multiplier : Float) (dir : TurnSign) :
    p.lengthUpTo (block + 1) = p.lengthUpTo block + (p.blockOps block multiplier dir).length := by
  rw [lengthUpTo, lengthUpTo, length_blockOps, Nat.count_succ, Nat.count_succ]
  split <;> split <;> ring

theorem length_blocksOps (jitter : Jitter) (block : Nat) (dir : TurnSign) (left : Nat) :
    p.lengthUpTo (block + left) = p.lengthUpTo block + (p.blocksOps jitter block dir left).length := by
  induction left generalizing block dir with
  | zero => rfl
  | succ left ih =>
      have hfirst := p.lengthUpTo_succ block (jitter block) dir
      have hrest := ih (block + 1) (p.dirBehind block dir)
      rw [show block + 1 + left = block + (left + 1) by omega] at hrest
      rw [blocksOps, List.length_append]
      omega

theorem count_even (n : Nat) : Nat.count (· % 2 = 0) (2 * n) = n := by
  have hcount := Nat.count_modEq_card two_pos (b := 2 * n) 0
  rw [Nat.mul_div_cancel_left n two_pos, Nat.mul_mod_right] at hcount
  exact hcount

theorem endsRow_iff (h : 1 < p.blocksPerRow.toNat) (block : Nat) :
    p.endsRow block = true ↔ block % p.blocksPerRow.toNat = p.blocksPerRow.toNat - 1 := by
  rw [endsRow, Bool.and_eq_true, decide_eq_true_iff, beq_iff_eq, and_iff_right_iff_imp]
  intro hmod
  by_contra hzero
  rw [Nat.eq_zero_of_not_pos hzero, Nat.zero_mod] at hmod
  omega

/-- One block in a row is the last one. -/
theorem count_endsRow (h : 1 < p.blocksPerRow.toNat) (n : Nat) :
    Nat.count (p.endsRow · = true) (p.blocksPerRow.toNat * n) = n := by
  have hends : ∀ block, p.endsRow block = true ↔ block ≡ p.blocksPerRow.toNat - 1 [MOD p.blocksPerRow.toNat] := by
    intro block
    rw [p.endsRow_iff h, Nat.ModEq, Nat.mod_eq_of_lt (show p.blocksPerRow.toNat - 1 < p.blocksPerRow.toNat by omega)]
  have hcount := Nat.count_modEq_card (Nat.zero_lt_of_lt h) (b := p.blocksPerRow.toNat * n)
    (p.blocksPerRow.toNat - 1)
  rw [Nat.mul_div_cancel_left n (Nat.zero_lt_of_lt h), Nat.mul_mod_right] at hcount
  simp only [hends]
  exact hcount

/-! ### Validation -/

/-- What the validation of a shape lets through. -/
structure Valid : Prop where
  blocksPerRow : 1 < p.blocksPerRow.toNat ∧ p.blocksPerRow.toNat % 2 = 0
  rows : 0 < p.rows.toNat
  majorLength : Parameter.majorLength.checkLength p.majorLength = .ok ()
  minorLength : Parameter.minorLength.checkLength p.minorLength = .ok ()
  angle : checkAngle p.startAngle = .ok ()
  blockCount : p.blockCount = .ok (p.blocksPerRow.toNat * p.rows.toNat)
  operationCount : p.operationCount =
    .ok ((10 * p.bends.toNat + 2) * (p.blocksPerRow.toNat * p.rows.toNat) + 5 * p.rows.toNat)

theorem operationCount_eq {operations : Nat} (h : p.operationCount = .ok operations) :
    p.blockCount = .ok (p.blocksPerRow.toNat * p.rows.toNat) ∧
      operations = (10 * p.bends.toNat + 2) * (p.blocksPerRow.toNat * p.rows.toNat) + 5 * p.rows.toNat := by
  have hcount := p.blockCount_eq
  split_ifs at hcount
  · rw [p.operationCount_of_ok hcount] at h
    split_ifs at h
    exact ⟨hcount, (Except.ok.inj h).symm⟩
  · rw [p.operationCount_of_error hcount] at h
    cases h

theorem valid_of_validate {p : ESequenceShape} (h : p.validate = .ok ()) : p.Valid := by
  unfold validate at h
  split at h
  · cases h
  · split at h
    · cases h
    · next heven =>
        split at h
        · cases h
        · next hrows =>
          rw [not_or, not_not, ← UInt32.toNat_inj, ← UInt32.toNat_inj, UInt32.toNat_mod] at heven
          have hpos : p.blocksPerRow.toNat ≠ 0 := heven.1
          have hmod : p.blocksPerRow.toNat % 2 = 0 := heven.2
          rw [← UInt32.toNat_inj] at hrows
          obtain ⟨_, hmajor, h⟩ := exists_of_bind_eq_ok h
          obtain ⟨_, hminor, h⟩ := exists_of_bind_eq_ok h
          obtain ⟨_, hangle, h⟩ := exists_of_bind_eq_ok h
          obtain ⟨operations, hcount, -⟩ := exists_of_bind_eq_ok h
          obtain ⟨hblocks, rfl⟩ := p.operationCount_eq hcount
          exact ⟨⟨by omega, hmod⟩, Nat.pos_of_ne_zero hrows, hmajor, hminor, hangle, hblocks, hcount⟩

/-- The default shape but for its minor length is valid if that is. -/
theorem validate_of_minorLength {length : Float} (h : Parameter.minorLength.checkLength length = .ok ()) :
    ({ minorLength := length } : ESequenceShape).validate = .ok () := by
  have hbends : ¬(4 : UInt32) = 0 := by decide
  have hperRow : ¬((4 : UInt32) = 0 ∨ (4 : UInt32) % 2 ≠ 0) := by decide
  have hrows : ¬(1 : UInt32) = 0 := by decide
  have hmajor : Parameter.majorLength.checkLength 96 = .ok () :=
    Parameter.majorLength.checkLength_ofNat (n := 96) (by decide) (by decide)
  have hangle : checkAngle 90 = .ok () := checkAngle_ofNat (n := 90) (by decide) (by decide)
  unfold validate
  rw [if_neg hbends, if_neg hperRow, if_neg hrows, hmajor, h, hangle]
  rfl

/-! ### The whole sequence -/

theorem sequence_of_validate_error {e : InvalidParameter} (h : p.validate = .error e) (jitter : Jitter) :
    p.sequence jitter = .error (.invalid e) := by
  rw [sequence, chainText, h]
  rfl

section

variable {p} (hvalid : p.Valid)

include hvalid

theorem count_even_blocks : 2 * Nat.count (· % 2 = 0) (p.blocksPerRow.toNat * p.rows.toNat) =
    p.blocksPerRow.toNat * p.rows.toNat := by
  obtain ⟨half, hhalf⟩ := Nat.dvd_of_mod_eq_zero hvalid.blocksPerRow.2
  rw [hhalf, Nat.mul_assoc, count_even]

/-- Every other block is even, and each row ends once. -/
theorem lengthUpTo_blocks : p.lengthUpTo (p.blocksPerRow.toNat * p.rows.toNat) =
    (10 * p.bends.toNat + 2) * (p.blocksPerRow.toNat * p.rows.toNat) + 5 * p.rows.toNat := by
  have heven := count_even_blocks hvalid
  rw [lengthUpTo, p.count_endsRow hvalid.blocksPerRow.1, Nat.add_mul]
  omega

end

section

variable {p} {jitter : Jitter} (hvalidate : p.validate = .ok ())

include hvalidate

theorem chainText_of_validate (jitter : Jitter) :
    p.chainText jitter =
      (p.blocksText jitter 0 p.dir [] (p.blocksPerRow.toNat * p.rows.toNat)).map String.join := by
  rw [chainText, hvalidate, (valid_of_validate hvalidate).blockCount]
  show (p.blocksText jitter 0 p.dir [] _ >>= fun pieces => Except.ok (String.join pieces)) = _
  cases p.blocksText jitter 0 p.dir [] _ with
  | error e => rfl
  | ok pieces => rfl

/-- If all blocks pass, the sequence is that of the blocks. -/
theorem sequence_of_ok
    (h : ∀ block < p.blocksPerRow.toNat * p.rows.toNat, p.checkSides block (jitter block) = .ok ()) :
    p.sequence jitter = .ok (p.blocksOps jitter 0 p.dir (p.blocksPerRow.toNat * p.rows.toNat)) := by
  have hvalid := valid_of_validate hvalidate
  have hblocks : ∀ i, 0 ≤ i → i < 0 + p.blocksPerRow.toNat * p.rows.toNat → p.checkSides i (jitter i) = .ok () :=
    fun i _ hi => h i (by omega)
  obtain ⟨pieces, htext, hjoin⟩ := blocksText_of_ok hvalid.angle hvalid.minorLength hblocks p.dir []
  have hwritten := written_blocksOps hvalid.angle hvalid.minorLength hblocks p.dir
  have hempty : String.join ([] : List (List String)).reverse.flatten = "" := rfl
  rw [hempty, String.empty_append] at hjoin
  rw [sequence, chainText_of_validate hvalidate, htext, Except.map, hjoin]
  simp only [Sequence.parse_piped hwritten]
  rfl

/-- Otherwise it is the error of the first block that does not pass. -/
theorem sequence_of_error {block : Nat} (hblock : block < p.blocksPerRow.toNat * p.rows.toNat)
    (h : ∀ earlier < block, p.checkSides earlier (jitter earlier) = .ok ()) {e : InvalidParameter}
    (he : p.checkSides block (jitter block) = .error e) : p.sequence jitter = .error (.invalid e) := by
  have hbelow : block < 0 + p.blocksPerRow.toNat * p.rows.toNat := by omega
  have htext := blocksText_of_error (Nat.zero_le block) hbelow (fun i _ hi => h i hi) he p.dir []
  rw [sequence, chainText_of_validate hvalidate, htext]
  rfl

end

/-- All blocks pass, or one is the first that does not. -/
theorem forall_or_first (blocks : Nat) (jitter : Jitter) :
    (∀ block < blocks, p.checkSides block (jitter block) = .ok ()) ∨
      ∃ block < blocks, (∀ earlier < block, p.checkSides earlier (jitter earlier) = .ok ()) ∧
        ∃ e, p.checkSides block (jitter block) = .error e := by
  induction blocks with
  | zero => exact Or.inl fun block hblock => absurd hblock (Nat.not_lt_zero block)
  | succ blocks ih =>
      rcases ih with h | ⟨block, hblock, h⟩
      · cases hlast : p.checkSides blocks (jitter blocks) with
        | error e => exact Or.inr ⟨blocks, Nat.lt_succ_self blocks, h, e, hlast⟩
        | ok =>
            refine Or.inl fun block hblock => ?_
            rcases Nat.lt_succ_iff_lt_or_eq.mp hblock with hlt | rfl
            · exact h block hlt
            · exact hlast
      · exact Or.inr ⟨block, Nat.lt_succ_of_lt hblock, h⟩

/-- A sequence that was put together is that of blocks which all pass. -/
theorem blocks_of_sequence {p : ESequenceShape} {jitter : Jitter} {ops : Sequence} (h : p.sequence jitter = .ok ops) :
    p.Valid ∧ (∀ block < p.blocksPerRow.toNat * p.rows.toNat, p.checkSides block (jitter block) = .ok ()) ∧
      ops = p.blocksOps jitter 0 p.dir (p.blocksPerRow.toNat * p.rows.toNat) := by
  cases hvalidate : p.validate with
  | error e =>
      rw [p.sequence_of_validate_error hvalidate] at h
      cases h
  | ok =>
      rcases p.forall_or_first (p.blocksPerRow.toNat * p.rows.toNat) jitter with hall | ⟨block, hblock, hall, e, he⟩
      · rw [sequence_of_ok hvalidate hall, Except.ok.injEq] at h
        exact ⟨valid_of_validate hvalidate, hall, h.symm⟩
      · rw [sequence_of_error hvalidate hblock hall he] at h
        cases h

/-- The length that was counted is that of the blocks. -/
theorem operationCount_of_validate {p : ESequenceShape} (hvalidate : p.validate = .ok ()) (jitter : Jitter) :
    p.operationCount = .ok (p.blocksOps jitter 0 p.dir (p.blocksPerRow.toNat * p.rows.toNat)).length := by
  have hvalid := valid_of_validate hvalidate
  have hlength := p.length_blocksOps jitter 0 p.dir (p.blocksPerRow.toNat * p.rows.toNat)
  have hzero : p.lengthUpTo 0 = 0 := by simp [lengthUpTo]
  rw [Nat.zero_add, lengthUpTo_blocks hvalid, hzero, Nat.zero_add] at hlength
  rw [hvalid.operationCount, hlength]

/-- The sequence of a valid shape is put together from all its blocks, and has the length that was counted, or it is
the error of the first length that does not pass. What is put together can always be read. -/
theorem sequence_outcome (jitter : Jitter) :
    (∀ e, p.validate = .error e → p.sequence jitter = .error (.invalid e)) ∧
      (p.validate = .ok () →
        ((∀ block < p.blocksPerRow.toNat * p.rows.toNat, p.checkSides block (jitter block) = .ok ()) →
          ∃ ops, p.sequence jitter = .ok ops ∧ p.operationCount = .ok ops.length) ∧
        ∀ block < p.blocksPerRow.toNat * p.rows.toNat, ∀ e,
          (∀ earlier < block, p.checkSides earlier (jitter earlier) = .ok ()) →
          p.checkSides block (jitter block) = .error e → p.sequence jitter = .error (.invalid e)) ∧
      ∀ family rule e, p.sequence jitter ≠ .error (.unreadable family rule e) := by
  refine ⟨fun e h => p.sequence_of_validate_error h jitter, fun hvalidate => ⟨fun h => ?_, ?_⟩, ?_⟩
  · exact ⟨_, sequence_of_ok hvalidate h, operationCount_of_validate hvalidate jitter⟩
  · intro block hblock e h he
    exact sequence_of_error hvalidate hblock h he
  · intro family rule e hread
    cases hvalidate : p.validate with
    | error e' =>
        rw [p.sequence_of_validate_error hvalidate] at hread
        cases hread
    | ok =>
        rcases p.forall_or_first (p.blocksPerRow.toNat * p.rows.toNat) jitter with h | ⟨block, hblock, h, e', he⟩
        · rw [sequence_of_ok hvalidate h] at hread
          cases hread
        · rw [sequence_of_error hvalidate hblock h he] at hread
          cases hread

/-- The default shape without jitter. -/
theorem sequence_outcome_default :
    ∃ ops, ({} : ESequenceShape).sequence (.fixed 1) = .ok ops ∧ ops.length = 173 := by
  have hminor : Parameter.minorLength.checkLength 48 = .ok () :=
    Parameter.checkLength_eq_ok_iff.mpr (by decide +kernel)
  have hsides : ∀ block, ({} : ESequenceShape).checkSides block 1 = .ok () := by
    intro block
    rw [checkSides_eq_ok_iff, sides]
    split
    · exact ⟨Parameter.checkLength_eq_ok_iff.mpr (by decide +kernel), hminor⟩
    · exact ⟨Parameter.checkLength_eq_ok_iff.mpr (by decide +kernel),
        Parameter.checkLength_eq_ok_iff.mpr (by decide +kernel)⟩
  obtain ⟨ops, hok, hcount⟩ := ((({} : ESequenceShape).sequence_outcome (.fixed 1)).2.1
    (validate_of_minorLength hminor)).1 fun block _ => hsides block
  exact ⟨ops, hok, Except.ok.inj hcount.symm⟩

end TurtleChain.ESequenceShape
