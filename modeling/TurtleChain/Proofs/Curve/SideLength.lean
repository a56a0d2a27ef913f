import TurtleChain.Proofs.Curve.ClosedForms

/-! What the side length is seen by. Rules for two sides are the same but for the lengths of their segments, a pass
looks at names alone, and so do the generations that it makes; and a segment that a rule has put in is as long as
the side. -/

namespace TurtleChain

open Binary64

/-- The names of the segments that rules draw. -/
def segmentNames : List String :=
  ["D", "DL", "DR"]

namespace Operation

/-- A segment without its length, and any other operation as it is. -/
def withoutLength (op : Operation) : Operation :=
  if op.name ∈ segmentNames then ⟨op.name, none⟩ else op

/-- If it is a segment, it is as long as the side: an integer if that is whole, and a float otherwise. -/
def HasSide (side : Float) (op : Operation) : Prop :=
  op.name ∈ segmentNames →
    if isWhole side then ∃ n : Int64, op.arg = some (.int n) ∧ (n.toInt : ℚ) = toRat side
    else op.arg = some (.float side)

theorem name_withoutLength (op : Operation) : op.withoutLength.name = op.name := by
  unfold withoutLength
  split <;> rfl

theorem withoutLength_of_segment {name : String} (h : name ∈ segmentNames) (arg : Option Arg) :
    withoutLength ⟨name, arg⟩ = ⟨name, none⟩ :=
  if_pos h

theorem withoutLength_ofNumber {name : String} (h : name ∈ segmentNames) (x : Float) :
    (ofNumber name x).withoutLength = ⟨name, none⟩ :=
  if_pos h

theorem hasSide_of_not_segment {side : Float} {op : Operation} (h : op.name ∉ segmentNames) : op.HasSide side :=
  fun hsegment => absurd hsegment h

theorem hasSide_ofNumber (name : String) {side : Float} (h : WritableNumber side) :
    (ofNumber name side).HasSide side := by
  intro _
  show if isWhole side then ∃ n : Int64, some (Arg.ofNumber side) = some (.int n) ∧ (n.toInt : ℚ) = toRat side
    else some (Arg.ofNumber side) = some (.float side)
  unfold Arg.ofNumber
  split
  · next hwhole =>
      refine ⟨_, rfl, ?_⟩
      rw [h.toInt_ofInt, cast_wholeValue ((isWhole_iff h.isFinite).mp hwhole)]
  · rfl

end Operation

/-- The same operations in the same order, but for the lengths of segments. -/
def Sequence.SameButLengths (ops ops' : Sequence) : Prop :=
  ops.map Operation.withoutLength = ops'.map Operation.withoutLength

namespace Table

/-! ### Passes -/

/-- What a name is replaced by, but for the lengths of segments. -/
def outline? (table : Table) (name : String) : Option Sequence :=
  (table.get? name).map (List.map Operation.withoutLength)

/-- What a pass makes of a sequence depends on the outlines alone, but for the lengths of segments. -/
theorem map_withoutLength_rewrite (table : Table) (ops : Sequence) :
    (table.rewrite ops).map Operation.withoutLength =
      (ops.map Operation.withoutLength).flatMap fun op => (table.outline? op.name).getD [op] := by
  have hreplacement : ∀ op : Operation, (table.replacement op).map Operation.withoutLength =
      (table.outline? op.withoutLength.name).getD [op.withoutLength] := by
    intro op
    rw [op.name_withoutLength, replacement, outline?]
    cases table.get? op.name with
    | none => rfl
    | some body => rfl
  rw [rewrite, List.map_flatMap, List.flatMap_map]
  exact congrArg (fun parts => ops.flatMap parts) (funext hreplacement)

theorem sameButLengths_generation {table table' : Table} (htable : ∀ name, table.outline? name = table'.outline? name)
    {seed seed' : Sequence} (hseed : seed.SameButLengths seed') (n : Nat) :
    (table.generation seed n).SameButLengths (table'.generation seed' n) := by
  induction n with
  | zero => exact hseed
  | succ n ih =>
      rw [Sequence.SameButLengths, generation, generation, map_withoutLength_rewrite, map_withoutLength_rewrite, ih,
        funext htable]

end Table

/-! ### Families -/

namespace LSystem

/-- The curves are segments, or they have no argument. -/
def CurvesShow (sys : LSystem) : Prop :=
  (∀ hand, sys.curveName hand ∈ segmentNames) ∧ (∀ side, sys.curveArg side = some (.ofNumber side)) ∨
    (∀ hand, sys.curveName hand ∉ segmentNames) ∧ ∀ side, sys.curveArg side = none

theorem curvesShow_of_system {family : Family} {sys : LSystem} (h : family.system? = some sys) : sys.CurvesShow := by
  cases family with
  | hilbert =>
      cases h
      exact Or.inr ⟨by decide, fun _ => rfl⟩
  | eCurve =>
      cases h
      exact Or.inl ⟨by decide, fun _ => rfl⟩
  | sierpinski =>
      cases h
      exact Or.inl ⟨by decide, fun _ => rfl⟩
  | zigzag =>
      cases h
      exact Or.inl ⟨by decide, fun _ => rfl⟩
  | generic => cases h

variable {sys : LSystem}

theorem exists_stands_of_mem {side : Float} {letters : List Letter} {ops : Sequence}
    (h : List.Forall₂ (sys.Stands side) letters ops) {op : Operation} (hop : op ∈ ops) :
    ∃ letter, sys.Stands side letter op := by
  induction h with
  | nil => cases hop
  | cons hfirst _ ih =>
      rcases List.mem_cons.mp hop with rfl | hop
      · exact ⟨_, hfirst⟩
      · exact ih hop

variable (hcurves : sys.CurvesShow)

include hcurves

theorem withoutLength_op (side side' : Float) (letter : Letter) :
    (sys.op side letter).withoutLength = (sys.op side' letter).withoutLength := by
  cases letter with
  | curve hand =>
      rcases hcurves with ⟨hnames, -⟩ | ⟨-, hargs⟩
      · rw [op, op, Operation.withoutLength_of_segment (hnames hand), Operation.withoutLength_of_segment (hnames hand)]
      · rw [op, op, hargs side, hargs side']
  | segment => rw [op, op, Operation.withoutLength_ofNumber (by decide), Operation.withoutLength_ofNumber (by decide)]
  | turn degrees => rfl

theorem outline_rule (side side' : Float) (hand : TurnSign) :
    (sys.rule side hand).map Operation.withoutLength = (sys.rule side' hand).map Operation.withoutLength := by
  rw [rule, rule, List.map_cons, List.map_cons, List.map_append, List.map_append, List.map_map, List.map_map]
  congr 2
  exact List.map_congr_left fun letter _ => withoutLength_op hcurves side side' letter

/-- Tables for two sides have the same outlines. -/
theorem outline?_eq {side side' : Float} {table table' : Table} (htable : table.Has (sys.rules side))
    (htable' : table'.Has (sys.rules side')) (name : String) : table.outline? name = table'.outline? name := by
  rw [Table.outline?, Table.outline?, htable.get?, htable'.get?, rules, rules]
  simp only [NameMap.lookup_cons, List.lookup_nil]
  split
  · rw [Option.map_some, Option.map_some, outline_rule hcurves side side']
  split
  · rw [Option.map_some, Option.map_some, outline_rule hcurves side side']
  · rfl

theorem hasSide_op {side : Float} (hside : WritableNumber side) (letter : Letter) :
    (sys.op side letter).HasSide side := by
  have hturn : "T" ∉ segmentNames := by decide
  cases letter with
  | curve hand =>
      rcases hcurves with ⟨-, hargs⟩ | ⟨hnames, -⟩
      · rw [op, hargs]
        exact Operation.hasSide_ofNumber (sys.curveName hand) hside
      · exact Operation.hasSide_of_not_segment (hnames hand)
  | segment => exact Operation.hasSide_ofNumber "D" hside
  | turn degrees => exact Operation.hasSide_of_not_segment hturn

/-- All segments that rules put in are as long as the side. -/
theorem hasSide_rule {side : Float} (hside : WritableNumber side) (hand : TurnSign) :
    ∀ op ∈ sys.rule side hand, op.HasSide side := by
  have hscale : "S" ∉ segmentNames := by decide
  intro op hop
  rw [rule, List.mem_cons, List.mem_append, List.mem_map, List.mem_singleton] at hop
  rcases hop with rfl | ⟨letter, -, rfl⟩ | rfl
  · exact Operation.hasSide_of_not_segment hscale
  · exact hasSide_op hcurves hside letter
  · exact Operation.hasSide_of_not_segment hscale

end LSystem

namespace Family

theorem exists_system {family : Family} (h : family ≠ generic) : ∃ sys, family.system? = some sys := by
  cases family with
  | hilbert => exact ⟨_, rfl⟩
  | eCurve => exact ⟨_, rfl⟩
  | sierpinski => exact ⟨_, rfl⟩
  | zigzag => exact ⟨_, rfl⟩
  | generic => exact absurd rfl h

theorem sameButLengths_seedOps (family : Family) (side side' : Float) :
    (family.seedOps side).SameButLengths (family.seedOps side') := by
  have hleft := @Operation.withoutLength_ofNumber "DL" (by decide)
  have hright := @Operation.withoutLength_ofNumber "DR" (by decide)
  cases family with
  | zigzag => simp only [Sequence.SameButLengths, seedOps, List.map_cons, List.map_nil, hleft, hright]
  | hilbert => rfl
  | eCurve => rfl
  | sierpinski => rfl
  | generic => rfl

section

variable {family : Family} {side : Float} (hside : WritableNumber side)

include hside

/-- Only the seed of the zigzag curve is written with the side. -/
theorem hasSide_seedOps_zigzag : ∀ op ∈ zigzag.seedOps side, op.HasSide side := by
  have hturn : "T" ∉ segmentNames := by decide
  have hleft := Operation.hasSide_ofNumber "DL" hside
  have hright := Operation.hasSide_ofNumber "DR" hside
  have hturns : ∀ x, (Operation.ofNumber "T" x).HasSide side := fun x => Operation.hasSide_of_not_segment hturn
  simp only [seedOps, List.forall_mem_cons]
  exact ⟨hturns 45, hleft, hturns (-90), hright, hturns 90, hleft, hturns (-90), hright, hturns 45,
    List.forall_mem_nil _⟩

/-- The segments of a seed are replaced by the first pass. -/
theorem hasSide_generation_succ {sys : LSystem} (hsys : family.system? = some sys) {table : Table}
    (htable : table.Has (sys.rules side)) (n : Nat) :
    ∀ op ∈ table.generation (family.seedOps side) (n + 1), op.HasSide side := by
  have hcurves := LSystem.curvesShow_of_system hsys
  apply Table.forall_mem_generation
  · intro name body hget
    obtain ⟨hand, -, rfl⟩ := LSystem.exists_hand_of_get? htable hget
    exact LSystem.hasSide_rule hcurves hside hand
  · intro op hop hget
    obtain ⟨letter, hstands⟩ := LSystem.exists_stands_of_mem (stands_seedOps hsys side) hop
    rcases letter.stays_or_curve with hcurve | ⟨hand, rfl⟩
    · rw [hstands.eq hcurve]
      exact LSystem.hasSide_op hcurves hside letter
    · have hname : op.name = sys.curveName hand := hstands.name
      rw [hname, LSystem.get?_curveName htable] at hget
      cases hget

end

/-- Two sides give the same generations but for the lengths of the segments. From the first pass on, and with the
zigzag curve from its seed on, each segment is as long as the side. -/
theorem side_shows_in_segments {family : Family} (hfamily : family ≠ generic) {side side' : Float}
    (hside : Parameter.sideLength.checkLength side = .ok ())
    (hside' : Parameter.sideLength.checkLength side' = .ok ()) :
    ∃ seed table seed' table', family.seed side = .ok seed ∧ family.table side = .ok table ∧
      family.seed side' = .ok seed' ∧ family.table side' = .ok table' ∧
      ∀ n, (table.generation seed n).SameButLengths (table'.generation seed' n) ∧
        (0 < n ∨ family = zigzag → ∀ op ∈ table.generation seed n, op.HasSide side) := by
  obtain ⟨sys, hsys⟩ := exists_system hfamily
  obtain ⟨table, htable, hhas⟩ := table_of_system hsys hside
  obtain ⟨table', htable', hhas'⟩ := table_of_system hsys hside'
  have hwritable := Parameter.writable_of_checkLength hside
  refine ⟨_, table, _, table', seed_eq hside family, htable, seed_eq hside' family, htable', fun n => ⟨?_, ?_⟩⟩
  · apply Table.sameButLengths_generation _ (sameButLengths_seedOps family side side')
    exact LSystem.outline?_eq (LSystem.curvesShow_of_system hsys) hhas hhas'
  · intro hn
    cases n with
    | zero =>
        obtain rfl : family = zigzag := hn.resolve_left (Nat.lt_irrefl 0)
        exact hasSide_seedOps_zigzag hwritable
    | succ n => exact hasSide_generation_succ hwritable hsys hhas n

/-- The seeds of the zigzag curve and its third generations, with a whole side and with one that is not. There are 4
segments among the 9 operations of the seed, and 32 among the 177 of the generation. -/
theorem side_shows_in_segments_zigzag :
    ∃ seed table seed' table', zigzag.seed 3 = .ok seed ∧ zigzag.table 3 = .ok table ∧
      zigzag.seed 0.5 = .ok seed' ∧ zigzag.table 0.5 = .ok table' ∧ seed.SameButLengths seed' ∧
      (table.generation seed 3).SameButLengths (table'.generation seed' 3) ∧
      (∀ op ∈ seed, op.HasSide 3) ∧ (∀ op ∈ table.generation seed 3, op.HasSide 3) ∧
      Sequence.countNamed drawNames seed = 4 ∧ seed.length = 9 ∧
      Sequence.countNamed drawNames (table.generation seed 3) = 32 ∧ (table.generation seed 3).length = 177 := by
  have hwhole : Parameter.sideLength.checkLength 3 = .ok () :=
    Parameter.sideLength.checkLength_ofNat (n := 3) (by decide) (by decide)
  have hhalf : Parameter.sideLength.checkLength 0.5 = .ok () :=
    Parameter.checkLength_eq_ok_iff.mpr (by decide +kernel)
  obtain ⟨seed, table, seed', table', hseed, htable, hseed', htable', hgeneration⟩ :=
    side_shows_in_segments (show zigzag ≠ generic by decide) hwhole hhalf
  obtain ⟨seed₀, table₀, hseed₀, htable₀, hcounts, -⟩ :=
    growsAs_of_system (show zigzag.system? = some .zigzag from rfl) LSystem.zigzag_counts (by decide) hwhole
  obtain rfl : seed₀ = seed := Except.ok.inj (hseed₀.symm.trans hseed)
  obtain rfl : table₀ = table := Except.ok.inj (htable₀.symm.trans htable)
  obtain ⟨hdrawn, hlength⟩ := hcounts 0
  obtain ⟨hdrawn', hlength'⟩ := hcounts 3
  norm_num [LSystem.Profile.drawn, LSystem.Profile.length, LSystem.Profile.series, Table.generation] at hdrawn hlength
  norm_num [LSystem.Profile.drawn, LSystem.Profile.length, LSystem.Profile.series] at hdrawn' hlength'
  exact ⟨seed₀, table₀, seed', table', hseed, htable, hseed', htable', (hgeneration 0).1, (hgeneration 3).1,
    (hgeneration 0).2 (Or.inr rfl), (hgeneration 3).2 (Or.inr rfl), by exact_mod_cast hdrawn, by exact_mod_cast hlength,
    by exact_mod_cast hdrawn', by exact_mod_cast hlength'⟩

end Family

end TurtleChain
