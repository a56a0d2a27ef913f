import TurtleChain.Proofs.Curve.Layout

/-! The turns of an E-sequence. They follow from the layout alone: jitter shows in lengths and nowhere else. A turn is
by the start angle to one side or the other; the turns of a bend cancel, and those of a row are undone by the next. -/

namespace TurtleChain

open Binary64

namespace Sequence

/-! ### What jitter shows in -/

/-- The colour behind an operation. -/
def colorBehind (color : Option String) (op : Operation) : Option String :=
  if op.name = "C" then op.arg.bind Arg.ident? else color

/-- The operations without the lengths of the segments and of the steps into the next row, which are drawn in the
colour `c4`. -/
def withoutStretch (color : Option String) : Sequence → Sequence
  | [] => []
  | op :: ops =>
    (if op.name = "D" ∨ op.name = "D2" ∧ color = some "c4" then ⟨op.name, none⟩ else op) ::
      withoutStretch (colorBehind color op) ops

theorem map_name_withoutStretch (color : Option String) (ops : Sequence) :
    (withoutStretch color ops).map Operation.name = ops.map Operation.name := by
  induction ops generalizing color with
  | nil => rfl
  | cons op ops ih =>
      rw [withoutStretch, List.map_cons, List.map_cons, ih]
      split <;> rfl

theorem withoutStretch_color (color : Option String) (tag : String) (ops : Sequence) :
    withoutStretch color (⟨"C", some (.ident tag)⟩ :: ops) =
      ⟨"C", some (.ident tag)⟩ :: withoutStretch (some tag) ops := by
  have hname : ¬("C" = "D" ∨ "C" = "D2" ∧ color = some "c4") := by simp
  rw [withoutStretch, if_neg hname, colorBehind, if_pos rfl]
  rfl

theorem colorBehind_ofNumber (color : Option String) {name : String} (h : name ≠ "C") (x : Float) :
    colorBehind color (.ofNumber name x) = color :=
  if_neg h

theorem withoutStretch_stretched {color : Option String} {name : String}
    (h : name = "D" ∨ name = "D2" ∧ color = some "c4") (x : Float) (ops : Sequence) :
    withoutStretch color (.ofNumber name x :: ops) = ⟨name, none⟩ :: withoutStretch color ops := by
  have hname : name ≠ "C" := by rcases h with rfl | ⟨rfl, -⟩ <;> decide
  rw [withoutStretch, colorBehind_ofNumber color hname]
  exact congrArg (· :: _) (if_pos h)

theorem withoutStretch_kept {color : Option String} {name : String} (hname : name ≠ "C")
    (h : ¬(name = "D" ∨ name = "D2" ∧ color = some "c4")) (x : Float) (ops : Sequence) :
    withoutStretch color (.ofNumber name x :: ops) = .ofNumber name x :: withoutStretch color ops := by
  rw [withoutStretch, colorBehind_ofNumber color hname]
  exact congrArg (· :: _) (if_neg h)

/-- The same operations but for what jitter shows in, whatever the colour in front of them. -/
def SameTurns (ops ops' : Sequence) : Prop :=
  ∀ color, withoutStretch color ops = withoutStretch color ops'

/-! ### The balance of turns -/

/-- The number of turns by an angle. -/
def turnsBy (angle : ℚ) (ops : Sequence) : Nat :=
  ops.countP fun op => decide (op.name = "T" ∧ op.value? = some angle)

/-- How many more turns there are by an angle than by its negative. -/
def turnBalance (angle : ℚ) (ops : Sequence) : Int :=
  ops.turnsBy angle - ops.turnsBy (-angle)

theorem turnBalance_nil (angle : ℚ) : turnBalance angle [] = 0 := rfl

theorem turnBalance_append (angle : ℚ) (ops ops' : Sequence) :
    turnBalance angle (ops ++ ops') = turnBalance angle ops + turnBalance angle ops' := by
  unfold turnBalance turnsBy
  rw [List.countP_append, List.countP_append]
  omega

theorem turnBalance_cons_of_ne (angle : ℚ) {op : Operation} (h : op.name ≠ "T") (ops : Sequence) :
    turnBalance angle (op :: ops) = turnBalance angle ops := by
  unfold turnBalance turnsBy
  rw [List.countP_cons_of_neg (by simp [h]), List.countP_cons_of_neg (by simp [h])]

/-- A turn counts by its sign. -/
theorem turnBalance_cons {angle : ℚ} (hangle : angle ≠ 0) {x : Float} (hx : WritableNumber x) {sign : Int}
    (hsign : sign = 1 ∨ sign = -1) (hvalue : toRat x = sign * angle) (ops : Sequence) :
    turnBalance angle (.ofNumber "T" x :: ops) = sign + turnBalance angle ops := by
  have hcount : ∀ angle', turnsBy angle' (.ofNumber "T" x :: ops) =
      turnsBy angle' ops + if sign * angle = angle' then 1 else 0 := by
    intro angle'
    have hop : decide ((Operation.ofNumber "T" x).name = "T" ∧ (Operation.ofNumber "T" x).value? = some angle') =
        decide (sign * angle = angle') := by
      rw [decide_eq_decide, Operation.value?_ofNumber "T" hx, hvalue, Option.some.injEq]
      exact and_iff_right rfl
    rw [turnsBy, List.countP_cons, hop]
    simp [turnsBy]
  have hne : angle ≠ -angle := by
    intro h
    exact hangle (by linarith)
  unfold turnBalance
  rw [hcount, hcount]
  rcases hsign with rfl | rfl
  · rw [Int.cast_one, one_mul, if_pos rfl, if_neg hne]
    omega
  · rw [Int.cast_neg, Int.cast_one, neg_one_mul, if_neg hne.symm, if_pos rfl]
    omega

end Sequence

namespace ESequenceShape

open Sequence

variable (p : ESequenceShape)

/-! ### Two runs -/

section

variable {ops ops' : Sequence} (h : SameTurns ops ops')

include h

-- Each piece starts with a colour, so nothing in front of it matters.
theorem sameTurns_halfBendOps (long short long' short' turn : Float) :
    SameTurns (halfBendOps long short turn ++ ops) (halfBendOps long' short' turn ++ ops') := by
  intro color
  have hlength := @withoutStretch_stretched (some "c1") "D" (Or.inl rfl)
  have hturn := @withoutStretch_kept (some "c1") "T" (by decide) (by decide)
  simp only [halfBendOps, List.cons_append, List.nil_append, withoutStretch_color, hlength, hturn, h (some "c1")]

theorem sameTurns_bendsOps (dir : TurnSign) (long short long' short' : Float) :
    SameTurns (p.bendsOps dir long short ++ ops) (p.bendsOps dir long' short' ++ ops') := by
  unfold bendsOps
  induction p.bends.toNat with
  | zero => exact h
  | succ n ih =>
      rw [List.replicate_succ, List.replicate_succ, List.flatten_cons, List.flatten_cons, List.append_assoc,
        List.append_assoc, List.append_assoc, List.append_assoc]
      exact sameTurns_halfBendOps (sameTurns_halfBendOps ih _ _ _ _ _) _ _ _ _ _

theorem sameTurns_blockEndOps (dir : TurnSign) (long long' : Float) :
    SameTurns (p.blockEndOps dir long ++ ops) (p.blockEndOps dir long' ++ ops') := by
  intro color
  have hlength := @withoutStretch_stretched (some "c2") "D" (Or.inl rfl)
  have hstep := @withoutStretch_kept (some "c2") "D2" (by decide) (by decide)
  have hturn := @withoutStretch_kept (some "c2") "T" (by decide) (by decide)
  simp only [blockEndOps, List.cons_append, List.nil_append, withoutStretch_color, hlength, hstep, hturn, h (some "c2")]

theorem sameTurns_rowEndOps (dir : TurnSign) (short short' : Float) :
    SameTurns (p.rowEndOps dir short ++ ops) (p.rowEndOps dir short' ++ ops') := by
  intro color
  have hstep := @withoutStretch_stretched (some "c4") "D2" (Or.inr ⟨rfl, rfl⟩)
  have hturn := @withoutStretch_kept (some "c4") "T" (by decide) (by decide)
  simp only [rowEndOps, List.cons_append, List.nil_append, withoutStretch_color, hstep, hturn, h (some "c4")]

theorem sameTurns_blockOps (block : Nat) (multiplier multiplier' : Float) (dir : TurnSign) :
    SameTurns (p.blockOps block multiplier dir ++ ops) (p.blockOps block multiplier' dir ++ ops') := by
  have hrow : ∀ short short', SameTurns ((if p.endsRow block then p.rowEndOps dir.flipped short else []) ++ ops)
      ((if p.endsRow block then p.rowEndOps dir.flipped short' else []) ++ ops') := by
    intro short short'
    split
    · exact p.sameTurns_rowEndOps h _ _ _
    · exact h
  rw [blockOps, blockOps, List.append_assoc, List.append_assoc, List.append_assoc, List.append_assoc]
  apply sameTurns_bendsOps
  split
  · exact p.sameTurns_blockEndOps (hrow _ _) _ _ _
  · exact hrow _ _

end

/-- Jitter only stretches. -/
theorem sameTurns_blocksOps (jitter jitter' : Jitter) (block : Nat) (dir : TurnSign) (left : Nat) :
    SameTurns (p.blocksOps jitter block dir left) (p.blocksOps jitter' block dir left) := by
  induction left generalizing block dir with
  | zero => exact fun _ => rfl
  | succ left ih => exact p.sameTurns_blockOps (ih _ _) _ _ _ _

/-! ### Turns by the start angle -/

/-- An operation that turns, if at all, by the start angle to one side or the other. -/
def TurnsByAngle (op : Operation) : Prop :=
  op.name = "T" → ∃ dir, op = .ofNumber "T" (p.turnBy dir)

theorem turnsByAngle_of_ne {op : Operation} (h : op.name ≠ "T") : p.TurnsByAngle op :=
  fun hname => absurd hname h

theorem turnsByAngle_turn (dir : TurnSign) : p.TurnsByAngle (.ofNumber "T" (p.turnBy dir)) :=
  fun _ => ⟨dir, rfl⟩

theorem turnsByAngle_blockOps (block : Nat) (multiplier : Float) (dir : TurnSign) :
    ∀ op ∈ p.blockOps block multiplier dir, p.TurnsByAngle op := by
  have hcolor : ∀ tag, p.TurnsByAngle ⟨"C", some (.ident tag)⟩ := fun tag =>
    p.turnsByAngle_of_ne (show "C" ≠ "T" by decide)
  have hlength : ∀ x, p.TurnsByAngle (.ofNumber "D" x) := fun x => p.turnsByAngle_of_ne (show "D" ≠ "T" by decide)
  have hstep : ∀ x, p.TurnsByAngle (.ofNumber "D2" x) := fun x => p.turnsByAngle_of_ne (show "D2" ≠ "T" by decide)
  have hturn := p.turnsByAngle_turn
  have hhalf : ∀ long short dir, ∀ op ∈ halfBendOps long short (p.turnBy dir), p.TurnsByAngle op := by
    intro long short dir
    simp only [halfBendOps, List.forall_mem_cons]
    exact ⟨hcolor "c1", hlength long, hturn dir, hlength short, hturn dir, List.forall_mem_nil _⟩
  rw [blockOps, List.forall_mem_append, List.forall_mem_append]
  refine ⟨⟨?_, ?_⟩, ?_⟩
  · intro op hop
    obtain ⟨bend, hbend, hop⟩ := List.mem_flatten.mp hop
    rw [List.eq_of_mem_replicate hbend] at hop
    rcases List.mem_append.mp hop with hop | hop
    · exact hhalf _ _ _ op hop
    · exact hhalf _ _ _ op hop
  · split
    · simp only [blockEndOps, List.forall_mem_cons]
      exact ⟨hcolor "c2", hlength _, hstep _, hturn dir, List.forall_mem_nil _⟩
    · exact List.forall_mem_nil _
  · split
    · simp only [rowEndOps, List.forall_mem_cons]
      exact ⟨hcolor "c4", hturn dir.flipped, hturn dir.flipped, hstep _, hturn dir.flipped, List.forall_mem_nil _⟩
    · exact List.forall_mem_nil _

theorem turnsByAngle_blocksOps (jitter : Jitter) (block : Nat) (dir : TurnSign) (left : Nat) :
    ∀ op ∈ p.blocksOps jitter block dir left, p.TurnsByAngle op := by
  induction left generalizing block dir with
  | zero => exact List.forall_mem_nil _
  | succ left ih => exact List.forall_mem_append.mpr ⟨p.turnsByAngle_blockOps _ _ _, ih _ _⟩

/-- The first turn to the side of the shape's direction, as a number. -/
def firstTurn : ℚ :=
  p.dir.toInt * toRat p.startAngle

section

variable {p} (hangle : checkAngle p.startAngle = .ok ())

include hangle

/-- Multiplying by a direction is exact. -/
theorem toRat_turnBy (dir : TurnSign) : toRat (p.turnBy dir) = dir.toInt * toRat p.startAngle := by
  obtain ⟨-, hle⟩ := checkAngle_eq_ok_iff.mp hangle
  have hfinite := Parameter.isFinite_of_le_limit hle
  have hbits := (isFinite_iff.mp hfinite).le
  have hmul := mul_of_magnitude_one (toFloat_dir dir).1 (toFloat_dir dir).2 hfinite
  have hnegative : isNegative TurnSign.negative.toFloat = true := by decide
  have hpositive : isNegative TurnSign.positive.toFloat = false := by decide
  rw [turnBy, hmul, toRat, isNegative_ofMagnitudeBits hbits, toRat,
    magnitude_congr (magnitudeBits_ofMagnitudeBits hbits _)]
  cases dir with
  | negative =>
      rw [hnegative]
      cases isNegative p.startAngle <;> simp [TurnSign.toInt]
  | positive =>
      rw [hpositive]
      cases isNegative p.startAngle <;> simp [TurnSign.toInt]

/-- A turn is by the first one or by its negative, as its direction is that of the shape or not. -/
theorem toRat_turnBy_eq (dir : TurnSign) :
    toRat (p.turnBy dir) = (dir.toInt * p.dir.toInt : Int) * p.firstTurn := by
  rw [toRat_turnBy hangle, firstTurn]
  cases p.dir <;> simp [TurnSign.toInt]

theorem value?_of_turnsByAngle {op : Operation} (h : p.TurnsByAngle op) (hname : op.name = "T") :
    op.value? = some p.firstTurn ∨ op.value? = some (-p.firstTurn) := by
  obtain ⟨dir, rfl⟩ := h hname
  have hturn : WritableNumber (p.turnBy dir) := writable_turn hangle dir
  rw [Operation.value?_ofNumber "T" hturn, toRat_turnBy_eq hangle]
  cases dir <;> cases p.dir <;> simp [TurnSign.toInt]

end

/-! ### The balance of turns -/

section

variable {p} (hangle : checkAngle p.startAngle = .ok ()) (hne : toRat p.startAngle ≠ 0)

include hangle hne

theorem turnBalance_turn (dir : TurnSign) (ops : Sequence) :
    turnBalance p.firstTurn (.ofNumber "T" (p.turnBy dir) :: ops) =
      dir.toInt * p.dir.toInt + turnBalance p.firstTurn ops := by
  have hfirst : p.firstTurn ≠ 0 := mul_ne_zero (by cases p.dir <;> simp [TurnSign.toInt]) hne
  exact turnBalance_cons hfirst (writable_turn hangle dir) (by cases dir <;> cases p.dir <;> decide)
    (toRat_turnBy_eq hangle dir) ops

theorem turnBalance_halfBendOps (long short : Float) (dir : TurnSign) :
    turnBalance p.firstTurn (halfBendOps long short (p.turnBy dir)) = 2 * (dir.toInt * p.dir.toInt) := by
  have hcolor : "C" ≠ "T" := by decide
  have hlength : "D" ≠ "T" := by decide
  rw [halfBendOps, turnBalance_cons_of_ne _ hcolor, turnBalance_cons_of_ne _ hlength, turnBalance_turn hangle hne,
    turnBalance_cons_of_ne _ hlength, turnBalance_turn hangle hne, turnBalance_nil]
  omega

/-- The two halves of a bend cancel. -/
theorem turnBalance_bendsOps (dir : TurnSign) (long short : Float) :
    turnBalance p.firstTurn (p.bendsOps dir long short) = 0 := by
  unfold bendsOps
  induction p.bends.toNat with
  | zero => rfl
  | succ n ih =>
      rw [List.replicate_succ, List.flatten_cons, turnBalance_append, turnBalance_append, ih,
        turnBalance_halfBendOps hangle hne, turnBalance_halfBendOps hangle hne, dir.toInt_flipped]
      ring

theorem turnBalance_blockEndOps (dir : TurnSign) (long : Float) :
    turnBalance p.firstTurn (p.blockEndOps dir long) = dir.toInt * p.dir.toInt := by
  have hcolor : "C" ≠ "T" := by decide
  have hlength : "D" ≠ "T" := by decide
  have hstep : "D2" ≠ "T" := by decide
  rw [blockEndOps, turnBalance_cons_of_ne _ hcolor, turnBalance_cons_of_ne _ hlength, turnBalance_cons_of_ne _ hstep,
    turnBalance_turn hangle hne, turnBalance_nil, Int.add_zero]

theorem turnBalance_rowEndOps (dir : TurnSign) (short : Float) :
    turnBalance p.firstTurn (p.rowEndOps dir short) = 3 * (dir.toInt * p.dir.toInt) := by
  have hcolor : "C" ≠ "T" := by decide
  have hstep : "D2" ≠ "T" := by decide
  rw [rowEndOps, turnBalance_cons_of_ne _ hcolor, turnBalance_turn hangle hne, turnBalance_turn hangle hne,
    turnBalance_cons_of_ne _ hstep, turnBalance_turn hangle hne, turnBalance_nil]
  omega

/-- Even blocks turn once in their direction, and rows end with three turns in the other. -/
theorem turnBalance_blockOps (block : Nat) (multiplier : Float) (dir : TurnSign) :
    turnBalance p.firstTurn (p.blockOps block multiplier dir) =
      (if block % 2 = 0 then dir.toInt * p.dir.toInt else 0) +
        (if p.endsRow block then -3 * (dir.toInt * p.dir.toInt) else 0) := by
  rw [blockOps, turnBalance_append, turnBalance_append, turnBalance_bendsOps hangle hne, Int.zero_add]
  congr 1
  · split
    · exact turnBalance_blockEndOps hangle hne ..
    · rfl
  · split
    · rw [turnBalance_rowEndOps hangle hne, dir.toInt_flipped]
      ring
    · rfl

variable (hperRow : 1 < p.blocksPerRow.toNat ∧ p.blocksPerRow.toNat % 2 = 0)

include hperRow

/-- The rest of a row: every other block turns once, and its end turns back three times. -/
theorem turnBalance_row (jitter : Jitter) (block left : Nat)
    (hleft : block % p.blocksPerRow.toNat + left + 1 = p.blocksPerRow.toNat) (dir : TurnSign) (rest : Nat) :
    turnBalance p.firstTurn (p.blocksOps jitter block dir (left + 1 + rest)) =
      dir.toInt * p.dir.toInt * (((left + 1) / 2 : Nat) - 3) +
        turnBalance p.firstTurn (p.blocksOps jitter (block + (left + 1)) dir.flipped rest) := by
  have hends := p.endsRow_iff hperRow.1
  -- Rows have evenly many blocks, so the place in the row shows whether a block is even.
  have hparity : ∀ block, block % p.blocksPerRow.toNat % 2 = block % 2 :=
    fun block => Nat.mod_mod_of_dvd block (Nat.dvd_of_mod_eq_zero hperRow.2)
  induction left generalizing block with
  | zero =>
      have hlast : p.endsRow block = true := (hends block).mpr (by omega)
      have hodd : ¬block % 2 = 0 := by
        have hblock := hparity block
        omega
      rw [show 0 + 1 + rest = rest + 1 by omega, blocksOps, turnBalance_append, turnBalance_blockOps hangle hne,
        if_neg hodd, if_pos hlast, dirBehind, if_pos hlast]
      norm_num
      ring
  | succ left ih =>
      have hinner : ¬p.endsRow block = true := fun hlast => by
        have hmod := (hends block).mp hlast
        omega
      have hnext : (block + 1) % p.blocksPerRow.toNat = block % p.blocksPerRow.toNat + 1 := by
        rw [← Nat.mod_add_mod, Nat.mod_eq_of_lt (by omega)]
      have hrest := ih (block + 1) (by omega)
      rw [show block + 1 + (left + 1) = block + (left + 1 + 1) by omega] at hrest
      rw [show left + 1 + 1 + rest = left + 1 + rest + 1 by omega, blocksOps, turnBalance_append,
        turnBalance_blockOps hangle hne, if_neg hinner, dirBehind, if_neg hinner, hrest]
      have hblock := hparity block
      split
      · have hhalf : (left + 1 + 1) / 2 = (left + 1) / 2 + 1 := by omega
        rw [hhalf]
        push_cast
        ring
      · have hhalf : (left + 1 + 1) / 2 = (left + 1) / 2 := by omega
        rw [hhalf]
        ring

/-- Each row undoes the turns of the row in front of it. -/
theorem turnBalance_rows (jitter : Jitter) {block : Nat} (hblock : block % p.blocksPerRow.toNat = 0) (dir : TurnSign)
    (rows : Nat) :
    turnBalance p.firstTurn (p.blocksOps jitter block dir (p.blocksPerRow.toNat * rows)) =
      if rows % 2 = 1 then dir.toInt * p.dir.toInt * ((p.blocksPerRow.toNat / 2 : Nat) - 3) else 0 := by
  induction rows generalizing block dir with
  | zero => rfl
  | succ rows ih =>
      have hcancel : p.blocksPerRow.toNat - 1 + 1 = p.blocksPerRow.toNat := by omega
      have hrow := turnBalance_row hangle hne hperRow jitter block (p.blocksPerRow.toNat - 1)
        (by omega) dir (p.blocksPerRow.toNat * rows)
      rw [hcancel, ih (by rw [Nat.add_mod_right, hblock]), dir.toInt_flipped] at hrow
      rw [Nat.mul_succ, Nat.add_comm, hrow]
      rcases Nat.mod_two_eq_zero_or_one rows with hmod | hmod
      · rw [if_neg (by omega), if_pos (by omega), Int.add_zero]
      · rw [if_pos hmod, if_neg (by omega)]
        ring

end

/-- Two jitters give the same names, and the same arguments but for the lengths of segments and of the steps into the
next row. All turns are by the start angle, to the side of the shape's direction or to the other; by how many more of
them go to the first side depends on the number of rows and of blocks in a row only. -/
theorem jitter_shows_in_lengths {p : ESequenceShape} {jitter jitter' : Jitter} {ops ops' : Sequence}
    (h : p.sequence jitter = .ok ops) (h' : p.sequence jitter' = .ok ops') :
    ops.map Operation.name = ops'.map Operation.name ∧
      ops.withoutStretch none = ops'.withoutStretch none ∧
      (∀ op ∈ ops, op.name = "T" → op.value? = some p.firstTurn ∨ op.value? = some (-p.firstTurn)) ∧
      (toRat p.startAngle ≠ 0 →
        (ops.turnsBy p.firstTurn : Int) - ops.turnsBy (-p.firstTurn) =
          if p.rows.toNat % 2 = 1 then ((p.blocksPerRow.toNat / 2 : Nat) : Int) - 3 else 0) := by
  obtain ⟨hvalid, -, rfl⟩ := blocks_of_sequence h
  obtain ⟨-, -, rfl⟩ := blocks_of_sequence h'
  have hsame := p.sameTurns_blocksOps jitter jitter' 0 p.dir (p.blocksPerRow.toNat * p.rows.toNat) none
  refine ⟨?_, hsame, ?_, fun hne => ?_⟩
  · rw [← map_name_withoutStretch none, hsame, map_name_withoutStretch]
  · intro op hop hname
    exact value?_of_turnsByAngle hvalid.angle (p.turnsByAngle_blocksOps _ _ _ _ op hop) hname
  · have hrows := turnBalance_rows hvalid.angle hne hvalid.blocksPerRow jitter (Nat.zero_mod _) p.dir p.rows.toNat
    rw [p.dir.toInt_mul_self, one_mul] at hrows
    exact hrows

/-- The default shape as it is and with half of its lengths. -/
theorem jitter_shows_in_lengths_default :
    ∃ ops ops', ({} : ESequenceShape).sequence (.fixed 1) = .ok ops ∧
      ({} : ESequenceShape).sequence (.fixed 0.5) = .ok ops' ∧
      ops.map Operation.name = ops'.map Operation.name ∧ ops.withoutStretch none = ops'.withoutStretch none ∧
      (ops.turnsBy ({} : ESequenceShape).firstTurn : Int) - ops.turnsBy (-({} : ESequenceShape).firstTurn) = -1 := by
  have hminor : Parameter.minorLength.checkLength 48 = .ok () :=
    Parameter.minorLength.checkLength_ofNat (n := 48) (by decide) (by decide)
  have hvalidate : ({} : ESequenceShape).validate = .ok () := validate_of_minorLength hminor
  have hlengths : ∀ multiplier ∈ [(1 : Float), 0.5], ∀ block,
      ({} : ESequenceShape).checkSides block multiplier = .ok () := by
    have hcross : Parameter.majorLength.checkLength (Float.ofNat 4 * 2 * 48) = .ok () :=
      Parameter.checkLength_eq_ok_iff.mpr (by decide +kernel)
    have hbits : ∀ multiplier ∈ [(1 : Float), 0.5], ∀ length ∈ [(96 : Float), 48],
        isNegative (multiplier * length) = false ∧ 0 < magnitudeBits (multiplier * length) ∧
          magnitudeBits (multiplier * length) ≤ magnitudeBits Parameter.limit := by
      decide +kernel
    intro multiplier hmultiplier block
    rw [checkSides_eq_ok_iff, sides]
    split
    · exact ⟨Parameter.checkLength_eq_ok_iff.mpr (hbits multiplier hmultiplier 96 (by simp)), hminor⟩
    · exact ⟨hcross, Parameter.checkLength_eq_ok_iff.mpr (hbits multiplier hmultiplier 48 (by simp))⟩
  have h : ({} : ESequenceShape).sequence (.fixed 1) = .ok _ :=
    sequence_of_ok hvalidate fun block _ => hlengths 1 (by simp) block
  have h' : ({} : ESequenceShape).sequence (.fixed 0.5) = .ok _ :=
    sequence_of_ok hvalidate fun block _ => hlengths 0.5 (by simp) block
  obtain ⟨hnames, hsame, -, hbalance⟩ := jitter_shows_in_lengths h h'
  exact ⟨_, _, h, h', hnames, hsame, hbalance (mt toRat_eq_zero_iff.mp (by decide +kernel))⟩

end ESequenceShape

end TurtleChain
