import TurtleChain.Proofs.Curve.LSystem

/-! How many operations a generation has. In the rules of a family both hands have as many curves, as many segments and
as many other letters, so the numbers of draw operations and of all operations have closed forms. The expansion fails
just where the closed form of the length is over the limit. -/

namespace TurtleChain

/-- The numbers of letters in a seed and in each of its rules. -/
structure LSystem.Profile where
  /-- The curves draw. -/
  curvesDraw : Bool
  seedCurves : Nat
  seedOthers : Nat
  curves : Nat
  segments : Nat
  /-- The segments among them, but not the two changes of scale. -/
  others : Nat

namespace LSystem

namespace Profile

variable (profile : Profile) (n : Nat)

/-- The sum of the first powers of the number of curves. -/
def series : ℚ :=
  ((profile.curves : ℚ) ^ n - 1) / (profile.curves - 1)

/-- The number of draw operations of a generation. -/
def drawn : ℚ :=
  (if profile.curvesDraw then profile.seedCurves * (profile.curves : ℚ) ^ n else 0) +
    profile.seedCurves * profile.segments * profile.series n

/-- The length of a generation. -/
def length : ℚ :=
  profile.seedCurves * (profile.curves : ℚ) ^ n +
    (profile.seedOthers + profile.seedCurves * (2 + profile.others) * profile.series n)

end Profile

/-- The letters of a system are in these numbers; its seed has no segments. -/
structure Counts (sys : LSystem) (profile : Profile) : Prop where
  draws : ∀ hand, drawNames.contains (sys.curveName hand) = profile.curvesDraw
  seed_curves : sys.seed.countP Letter.isCurve = profile.seedCurves
  seed_segments : sys.seed.countP Letter.isSegment = 0
  seed_others : sys.seed.countP (fun letter => !letter.isCurve) = profile.seedOthers
  curves : ∀ hand, (sys.word hand).countP Letter.isCurve = profile.curves
  segments : ∀ hand, (sys.word hand).countP Letter.isSegment = profile.segments
  others : ∀ hand, (sys.word hand).countP (fun letter => !letter.isCurve) = profile.others

theorem hilbert_counts : hilbert.Counts ⟨false, 1, 0, 4, 3, 7⟩ := by
  constructor <;> decide

theorem eCurve_counts : eCurve.Counts ⟨true, 1, 0, 25, 0, 18⟩ := by
  constructor <;> decide

theorem sierpinski_counts : sierpinski.Counts ⟨true, 1, 0, 3, 0, 2⟩ := by
  constructor <;> decide

theorem zigzag_counts : zigzag.Counts ⟨true, 4, 5, 2, 0, 3⟩ := by
  constructor <;> decide

variable {sys : LSystem} {side : Float} {table : Table} {profile : Profile}

/-- What is counted by names is the same where the names are. -/
theorem countP_eq_of_names {ops ops' : Sequence} (h : ops.map Operation.name = ops'.map Operation.name)
    (kind : String → Bool) : (ops.countP fun op => kind op.name) = ops'.countP fun op => kind op.name := by
  have hmap : ∀ ops : Sequence, (ops.countP fun op => kind op.name) = (ops.map Operation.name).countP kind :=
    fun ops => List.countP_map.symm
  rw [hmap, hmap, h]

section

variable (htable : table.Has (sys.rules side))

include htable

theorem countP_replaces_word (letters : List Letter) :
    (letters.map (sys.op side)).countP table.replaces = letters.countP Letter.isCurve := by
  rw [List.countP_map]
  congr 1
  funext letter
  exact replaces_op htable letter

theorem countP_keeps_word {kind : Operation → Bool} {letterKind : Letter → Bool}
    (hkind : ∀ letter, (!letter.isCurve && kind (sys.op side letter)) = letterKind letter) (letters : List Letter) :
    (letters.map (sys.op side)).countP (table.keeps kind) = letters.countP letterKind := by
  rw [List.countP_map]
  congr 1
  funext letter
  rw [Function.comp_apply, Table.keeps, replaces_op htable, hkind]

/-- A kind of operation that is known by its name, and of which all words have as many letters that stay. -/
theorem uniform {kind : String → Bool} {letterKind : Letter → Bool} {multiple letters : Nat}
    (hkind : ∀ letter, (!letter.isCurve && kind (sys.op side letter).name) = letterKind letter)
    (hmultiple : ∀ hand, (sys.word hand).countP Letter.isCurve = multiple)
    (hletters : ∀ hand, (sys.word hand).countP letterKind = letters) :
    table.Uniform (fun op => kind op.name) multiple ((if kind "S" then 2 else 0) + letters) := by
  have hopening : table.replaces sys.opening = false :=
    replaces_apart htable (show sys.opening.name ∈ _ from List.mem_cons_self)
  have hclosing : table.replaces sys.closing = false :=
    replaces_apart htable (show sys.closing.name ∈ _ from List.mem_cons_self)
  constructor
  · intro name body hget
    obtain ⟨hand, -, rfl⟩ := exists_hand_of_get? htable hget
    rw [rule, List.countP_cons, List.countP_append, countP_replaces_word htable, List.countP_singleton, hopening,
      hclosing, hmultiple]
    rfl
  · intro name body hget
    obtain ⟨hand, -, rfl⟩ := exists_hand_of_get? htable hget
    have hkeeps : ∀ op : Operation, op.name = "S" → table.replaces op = false →
        table.keeps (fun op => kind op.name) op = kind "S" := by
      intro op hname hop
      rw [Table.keeps, hop, hname]
      rfl
    rw [rule, List.countP_cons, List.countP_append, countP_keeps_word htable hkind, hletters, List.countP_singleton,
      hkeeps sys.opening rfl hopening, hkeeps sys.closing rfl hclosing]
    by_cases hscale : kind "S" = true
    · rw [if_pos hscale, if_pos hscale]
      omega
    · rw [if_neg hscale, if_neg hscale]
      omega

theorem countP_generation {seed : Sequence}
    (hseed : seed.map Operation.name = (sys.seed.map (sys.op side)).map Operation.name) (kind : String → Bool)
    {letterKind : Letter → Bool} {all : Bool} {multiple letters : Nat}
    (hkind : ∀ letter, (!letter.isCurve && kind (sys.op side letter).name) = letterKind letter)
    (hall : ∀ hand, kind (sys.curveName hand) = all)
    (hmultiple : ∀ hand, (sys.word hand).countP Letter.isCurve = multiple)
    (hletters : ∀ hand, (sys.word hand).countP letterKind = letters) (n : Nat) :
    (table.generation seed n).countP (fun op => kind op.name) =
      (if all then sys.seed.countP Letter.isCurve * multiple ^ n else 0) +
        (sys.seed.countP letterKind + sys.seed.countP Letter.isCurve * ((if kind "S" then 2 else 0) + letters) *
          ∑ i ∈ Finset.range n, multiple ^ i) := by
  have hcurves : ∀ op : Operation, table.replaces op = true → kind op.name = all := by
    intro op hop
    rcases table.replacement_cases op with ⟨-, hget⟩ | ⟨hstays, -⟩
    · obtain ⟨hand, hname, -⟩ := exists_hand_of_get? htable hget
      rw [hname, hall]
    · rw [hop] at hstays
      cases hstays
  have hreplaces : seed.countP table.replaces = sys.seed.countP Letter.isCurve :=
    (countP_eq_of_names hseed table.contains).trans (countP_replaces_word htable sys.seed)
  have hkeeps : seed.countP (table.keeps fun op => kind op.name) = sys.seed.countP letterKind :=
    (countP_eq_of_names hseed fun name => !table.contains name && kind name).trans
      (countP_keeps_word htable hkind sys.seed)
  rw [(uniform htable hkind hmultiple hletters).countP_generation hcurves, hreplaces, hkeeps]

end

section

variable (hcounts : sys.Counts profile) (hcurves : 2 ≤ profile.curves)

include hcurves

theorem Profile.cast_series (n : Nat) : ((∑ i ∈ Finset.range n, profile.curves ^ i : Nat) : ℚ) = profile.series n := by
  have hne : (profile.curves : ℚ) ≠ 1 := by exact_mod_cast (Nat.lt_of_succ_le hcurves).ne'
  rw [series, ← geom_sum_eq hne, Nat.cast_sum]
  apply Finset.sum_congr rfl
  intro i _
  exact Nat.cast_pow profile.curves i

variable (htable : table.Has (sys.rules side)) {seed : Sequence}
  (hseed : seed.map Operation.name = (sys.seed.map (sys.op side)).map Operation.name)

include hcounts htable hseed

theorem drawn_generation (n : Nat) :
    (Sequence.countNamed drawNames (table.generation seed n) : ℚ) = profile.drawn n := by
  have hkind : ∀ letter : Letter, (!letter.isCurve && drawNames.contains (sys.op side letter).name) =
      letter.isSegment := by
    intro letter
    cases letter <;> rfl
  have hcount := countP_generation htable hseed drawNames.contains hkind hcounts.draws hcounts.curves hcounts.segments n
  have hscale : drawNames.contains "S" = false := by decide
  rw [hcounts.seed_curves, hcounts.seed_segments, hscale] at hcount
  rw [Sequence.countNamed, hcount, Profile.drawn, ← Profile.cast_series hcurves n]
  push_cast
  simp

theorem length_generation (n : Nat) : ((table.generation seed n).length : ℚ) = profile.length n := by
  have hkind : ∀ letter : Letter, (!letter.isCurve && true) = !letter.isCurve := fun letter => Bool.and_true _
  have hcount := countP_generation htable hseed (fun _ => true) hkind (fun _ => rfl) hcounts.curves hcounts.others n
  rw [hcounts.seed_curves, hcounts.seed_others] at hcount
  rw [← List.countP_true, hcount, Profile.length, ← Profile.cast_series hcurves n]
  push_cast
  simp

end

end LSystem

/-- Every generation of the family, for segments of this side, has so many draw operations and so many operations in
all, and the expansion fails just where that is over the limit. -/
def Family.GrowsAs (family : Family) (side : Float) (drawn length : Nat → ℚ) : Prop :=
  ∃ seed table, family.seed side = .ok seed ∧ family.table side = .ok table ∧
    (∀ n, (Sequence.countNamed drawNames (table.generation seed n) : ℚ) = drawn n ∧
      ((table.generation seed n).length : ℚ) = length n) ∧
    ∀ limit depth : Nat, (∃ error, table.expand limit seed depth = .error error) ↔ (limit : ℚ) < length depth

theorem Family.growsAs_of_system {family : Family} {sys : LSystem} (hsys : family.system? = some sys)
    {profile : LSystem.Profile} (hcounts : sys.Counts profile) (hcurves : 2 ≤ profile.curves) {side : Float}
    (hside : Parameter.sideLength.checkLength side = .ok ()) : family.GrowsAs side profile.drawn profile.length := by
  obtain ⟨table, htable, hhas⟩ := table_of_system hsys hside
  have hseed := LSystem.names_of_stands (stands_seedOps hsys side)
  have hlength := LSystem.length_generation hcounts hcurves hhas hseed
  refine ⟨_, table, seed_eq hside family, htable, fun n => ⟨?_, hlength n⟩, fun limit depth => ?_⟩
  · exact LSystem.drawn_generation hcounts hcurves hhas hseed n
  · have hbodies : ∀ name body, table.get? name = some body → body ≠ [] := by
      intro name body hget
      obtain ⟨hand, -, rfl⟩ := LSystem.exists_hand_of_get? hhas hget
      exact List.cons_ne_nil _ _
    rw [Table.expand_eq_error_iff hbodies, ← hlength depth, Nat.cast_lt]

theorem Family.GrowsAs.congr {family : Family} {side : Float} {drawn drawn' length length' : Nat → ℚ}
    (h : family.GrowsAs side drawn length) (hdrawn : ∀ n, drawn n = drawn' n) (hlength : ∀ n, length n = length' n) :
    family.GrowsAs side drawn' length' := by
  rwa [← funext hdrawn, ← funext hlength]

/-- The numbers of draw operations and of all operations, for the four families that are given by a side length. -/
theorem Family.closed_forms {side : Float} (hside : Parameter.sideLength.checkLength side = .ok ()) :
    hilbert.GrowsAs side (fun n => 4 ^ n - 1) (fun n => 4 ^ (n + 1) - 3) ∧
      sierpinski.GrowsAs side (fun n => 3 ^ n) (fun n => 3 ^ (n + 1) - 2) ∧
      eCurve.GrowsAs side (fun n => 25 ^ n) (fun n => (11 * 25 ^ n - 5) / 6) ∧
      zigzag.GrowsAs side (fun n => 4 * 2 ^ n) (fun n => 24 * 2 ^ n - 15) := by
  refine ⟨?_, ?_, ?_, ?_⟩
  · refine (growsAs_of_system rfl LSystem.hilbert_counts (by decide) hside).congr (fun n => ?_) (fun n => ?_)
    · rw [LSystem.Profile.drawn, LSystem.Profile.series, if_neg Bool.false_ne_true]
      push_cast
      ring
    · rw [LSystem.Profile.length, LSystem.Profile.series]
      push_cast
      ring
  · refine (growsAs_of_system rfl LSystem.sierpinski_counts (by decide) hside).congr (fun n => ?_) (fun n => ?_)
    · rw [LSystem.Profile.drawn, LSystem.Profile.series, if_pos rfl]
      push_cast
      ring
    · rw [LSystem.Profile.length, LSystem.Profile.series]
      push_cast
      ring
  · refine (growsAs_of_system rfl LSystem.eCurve_counts (by decide) hside).congr (fun n => ?_) (fun n => ?_)
    · rw [LSystem.Profile.drawn, LSystem.Profile.series, if_pos rfl]
      push_cast
      ring
    · rw [LSystem.Profile.length, LSystem.Profile.series]
      push_cast
      ring
  · refine (growsAs_of_system rfl LSystem.zigzag_counts (by decide) hside).congr (fun n => ?_) (fun n => ?_)
    · rw [LSystem.Profile.drawn, LSystem.Profile.series, if_pos rfl]
      push_cast
      ring
    · rw [LSystem.Profile.length, LSystem.Profile.series]
      push_cast
      ring

/-- The second generation of the E-curve with segments of two and a half. -/
theorem Family.closed_forms_second_eCurve :
    ∃ seed table, Family.eCurve.seed 2.5 = .ok seed ∧ Family.eCurve.table 2.5 = .ok table ∧
      Sequence.countNamed drawNames (table.generation seed 2) = 625 ∧ (table.generation seed 2).length = 1145 ∧
      (∃ error, table.expand 1144 seed 2 = .error error) ∧ ¬∃ error, table.expand 1145 seed 2 = .error error := by
  have hside : Parameter.sideLength.checkLength 2.5 = .ok () :=
    Parameter.checkLength_eq_ok_iff.mpr (by decide +kernel)
  obtain ⟨-, -, ⟨seed, table, hseed, htable, hcounts, hexpand⟩, -⟩ := closed_forms hside
  obtain ⟨hdrawn, hlength⟩ := hcounts 2
  refine ⟨seed, table, hseed, htable, ?_, ?_, (hexpand 1144 2).mpr (by norm_num), ?_⟩
  · exact_mod_cast hdrawn.trans (show (25 : ℚ) ^ 2 = (625 : Nat) by norm_num)
  · exact_mod_cast hlength.trans (show (11 * (25 : ℚ) ^ 2 - 5) / 6 = (1145 : Nat) by norm_num)
  · rw [hexpand 1145 2]
    norm_num

end TurtleChain
