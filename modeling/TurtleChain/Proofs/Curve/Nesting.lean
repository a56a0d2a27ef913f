import Mathlib.Combinatorics.Enumerative.DyckWord
import TurtleChain.Proofs.Curve.ClosedForms
import TurtleChain.Proofs.Curve.Turns

/-! How changes of scale nest. Read as brackets, the changes of scale of a generation are a Dyck word: a rule is one
pair of them around its letters, and the letters of a rule grow apart from each other. So a pass lifts what it replaces
by one level, and leaves the depth of everything else as it is. -/

namespace TurtleChain

open Binary64

/-- The first factor opens a bracket, and the last one closes it. -/
def Operation.bracket? (shrink grow : Float) (op : Operation) : Option DyckStep :=
  if op.name = "S" then
    if op.arg.bind Arg.number? = some shrink then some .U
    else if op.arg.bind Arg.number? = some grow then some .D
    else none
  else none

namespace Sequence

section

variable (shrink grow : Float)

def brackets (ops : Sequence) : List DyckStep :=
  ops.filterMap (Operation.bracket? shrink grow)

/-- The number of brackets that are opened and not closed. -/
def depth (ops : Sequence) : Int :=
  (brackets shrink grow ops).count .U - (brackets shrink grow ops).count .D

/-- The operations, each with the number of brackets that are open in front of it. -/
def depths : Int → Sequence → List (Operation × Int)
  | _, [] => []
  | level, op :: ops => (op, level) :: depths (level + depth shrink grow [op]) ops

/-- The number of operations of this name at a level. -/
def countAt (name : String) (level : Int) (ops : Sequence) : Nat :=
  (depths shrink grow 0 ops).countP fun place => place.1.name == name && place.2 == level

/-- Every change of scale is a bracket, the brackets are balanced, and operations of these names are at one level. -/
structure Nested (names : List String) (level : Nat) (ops : Sequence) : Prop where
  marked : ∀ op ∈ ops, op.name = "S" → (op.bracket? shrink grow).isSome = true
  balanced : ∃ word : DyckWord, word.toList = brackets shrink grow ops
  depths : ∀ place ∈ depths shrink grow 0 ops, place.1.name ∈ names → place.2 = level

end

variable {shrink grow : Float} {ops ops' : Sequence} {names : List String} {level : Nat}

theorem brackets_append : brackets shrink grow (ops ++ ops') = brackets shrink grow ops ++ brackets shrink grow ops' :=
  List.filterMap_append

theorem depth_append : depth shrink grow (ops ++ ops') = depth shrink grow ops + depth shrink grow ops' := by
  unfold depth
  rw [brackets_append, List.count_append, List.count_append]
  omega

theorem depths_append (level : Int) : depths shrink grow level (ops ++ ops') =
    depths shrink grow level ops ++ depths shrink grow (level + depth shrink grow ops) ops' := by
  induction ops generalizing level with
  | nil => exact congrArg (fun level => depths shrink grow level ops') (Int.add_zero level).symm
  | cons op ops ih =>
      have hcons : depth shrink grow (op :: ops) = depth shrink grow [op] + depth shrink grow ops :=
        @depth_append shrink grow [op] ops
      rw [List.cons_append, depths, depths, ih, hcons, Int.add_assoc]
      rfl

/-- Further in, everything is as much deeper. -/
theorem depths_add (level level' : Int) : depths shrink grow (level + level') ops =
    (depths shrink grow level ops).map fun place => (place.1, place.2 + level') := by
  induction ops generalizing level with
  | nil => rfl
  | cons op ops ih => rw [depths, depths, List.map_cons, ← ih, Int.add_right_comm]

namespace Nested

theorem nil : Nested shrink grow names level [] :=
  ⟨nofun, ⟨0, rfl⟩, nofun⟩

theorem depth_eq_zero (h : Nested shrink grow names level ops) : depth shrink grow ops = 0 := by
  obtain ⟨word, hword⟩ := h.balanced
  rw [depth, ← hword, word.count_U_eq_count_D, Int.sub_self]

theorem append (h : Nested shrink grow names level ops) (h' : Nested shrink grow names level ops') :
    Nested shrink grow names level (ops ++ ops') := by
  refine ⟨List.forall_mem_append.mpr ⟨h.marked, h'.marked⟩, ?_, ?_⟩
  · obtain ⟨word, hword⟩ := h.balanced
    obtain ⟨word', hword'⟩ := h'.balanced
    exact ⟨word + word', by rw [brackets_append, ← hword, ← hword']; rfl⟩
  · rw [depths_append, h.depth_eq_zero]
    exact List.forall_mem_append.mpr ⟨h.depths, h'.depths⟩

theorem flatMap {α : Type} {items : List α} {parts : α → Sequence}
    (h : ∀ item ∈ items, Nested shrink grow names level (parts item)) :
    Nested shrink grow names level (items.flatMap parts) := by
  induction items with
  | nil => exact nil
  | cons item items ih =>
      obtain ⟨hitem, hitems⟩ := List.forall_mem_cons.mp h
      rw [List.flatMap_cons]
      exact hitem.append (ih hitems)

end Nested

theorem brackets_singleton_of_ne {op : Operation} (h : op.name ≠ "S") : brackets shrink grow [op] = [] := by
  rw [brackets, List.filterMap_cons, Operation.bracket?, if_neg h]
  rfl

theorem nested_singleton {op : Operation} (h : op.name ≠ "S") (hlevel : op.name ∈ names → level = 0) :
    Nested shrink grow names level [op] := by
  refine ⟨?_, ⟨0, (brackets_singleton_of_ne h).symm⟩, ?_⟩
  · intro op' hop' hname
    rw [List.mem_singleton.mp hop'] at hname
    exact absurd hname h
  · intro place hplace hname
    rw [List.mem_singleton.mp hplace] at hname ⊢
    rw [hlevel hname]
    rfl

section

variable {opening closing : Operation} (hopening : opening.bracket? shrink grow = some .U)
  (hclosing : closing.bracket? shrink grow = some .D)

include hopening

theorem depth_opening : depth shrink grow [opening] = 1 := by
  rw [depth, brackets, List.filterMap_cons, hopening]
  rfl

/-- Between two brackets everything is one level deeper. -/
theorem depths_wrap : depths shrink grow 0 (opening :: (ops ++ [closing])) =
    (opening, 0) :: ((depths shrink grow 0 ops).map fun place => (place.1, place.2 + 1)) ++
      [(closing, 1 + depth shrink grow ops)] := by
  rw [depths, depth_opening hopening, depths_append, depths_add]
  rfl

include hclosing

theorem Nested.wrap (h : Nested shrink grow names level ops) (hopen : opening.name ∉ names)
    (hclose : closing.name ∉ names) : Nested shrink grow names (level + 1) (opening :: (ops ++ [closing])) := by
  refine ⟨?_, ?_, ?_⟩
  · refine List.forall_mem_cons.mpr ⟨fun _ => ?_, List.forall_mem_append.mpr ⟨h.marked, ?_⟩⟩
    · rw [hopening]
      rfl
    · refine List.forall_mem_singleton.mpr fun _ => ?_
      rw [hclosing]
      rfl
  · obtain ⟨word, hword⟩ := h.balanced
    refine ⟨word.nest, ?_⟩
    have hends : brackets shrink grow [opening] = [.U] ∧ brackets shrink grow [closing] = [.D] := by
      unfold brackets
      rw [List.filterMap_cons, List.filterMap_cons, hopening, hclosing]
      exact ⟨rfl, rfl⟩
    rw [← List.singleton_append, brackets_append, brackets_append, hends.1, hends.2, ← hword]
    rfl
  · rw [depths_wrap hopening]
    intro place hplace hname
    rcases List.mem_append.mp hplace with hplace | hplace
    · rcases List.mem_cons.mp hplace with rfl | hplace
      · exact absurd hname hopen
      · obtain ⟨inner, hinner, rfl⟩ := List.mem_map.mp hplace
        rw [Nat.cast_add, ← h.depths inner hinner hname]
        rfl
    · rw [List.mem_singleton.mp hplace] at hname
      exact absurd hname hclose

end

/-! ### Numbers of operations at a level -/

theorem countAt_append (h : Nested shrink grow names level ops) (name : String) (depth : Int) :
    countAt shrink grow name depth (ops ++ ops') =
      countAt shrink grow name depth ops + countAt shrink grow name depth ops' := by
  rw [countAt, depths_append, h.depth_eq_zero, List.countP_append]
  rfl

theorem countAt_singleton (op : Operation) (name : String) (depth : Int) :
    countAt shrink grow name depth [op] = if op.name = name ∧ depth = 0 then 1 else 0 := by
  rw [countAt, depths, depths, List.countP_singleton]
  congr 1
  rw [Bool.and_eq_true, beq_iff_eq, beq_iff_eq, eq_comm (a := (0 : Int))]

theorem countAt_wrap {opening closing : Operation} (hopening : opening.bracket? shrink grow = some .U) {name : String}
    (hopen : opening.name ≠ name) (hclose : closing.name ≠ name) (depth : Int) :
    countAt shrink grow name depth (opening :: (ops ++ [closing])) = countAt shrink grow name (depth - 1) ops := by
  have hshift : (fun place : Operation × Int => place.1.name == name && place.2 == depth) ∘
      (fun place : Operation × Int => (place.1, place.2 + 1)) =
        fun place => place.1.name == name && place.2 == depth - 1 := by
    funext place
    rw [Function.comp_apply, Bool.eq_iff_iff]
    simp only [Bool.and_eq_true, beq_iff_eq]
    refine and_congr_right fun _ => ?_
    omega
  rw [countAt, depths_wrap hopening, List.countP_append, List.countP_cons, List.countP_singleton, List.countP_map,
    hshift, beq_eq_false_iff_ne.mpr hopen, beq_eq_false_iff_ne.mpr hclose]
  rfl

theorem countAt_flatMap {α : Type} {items : List α} {parts : α → Sequence}
    (h : ∀ item ∈ items, Nested shrink grow names level (parts item)) (name : String) (depth : Int) :
    countAt shrink grow name depth (items.flatMap parts) =
      (items.map fun item => countAt shrink grow name depth (parts item)).sum := by
  induction items with
  | nil => rfl
  | cons item items ih =>
      obtain ⟨hitem, hitems⟩ := List.forall_mem_cons.mp h
      rw [List.flatMap_cons, countAt_append hitem, ih hitems, List.map_cons, List.sum_cons]

end Sequence

namespace Letter

/-- Where curves weigh the same, and so do segments, only the numbers of both are needed. -/
theorem sum_weights (curve segment : Nat) (letters : List Letter) :
    (letters.map fun letter => if letter.isCurve then curve else if letter.isSegment then segment else 0).sum =
      letters.countP isCurve * curve + letters.countP isSegment * segment := by
  induction letters with
  | nil => simp
  | cons letter letters ih =>
      rw [List.map_cons, List.sum_cons, ih, List.countP_cons, List.countP_cons]
      cases letter with
      | curve hand =>
          simp only [isCurve, isSegment, if_true, Bool.false_eq_true, if_false]
          ring
      | segment =>
          simp only [isCurve, isSegment, if_true, Bool.false_eq_true, if_false]
          ring
      | turn degrees =>
          simp only [isCurve, isSegment, Bool.false_eq_true, if_false]
          ring

end Letter

namespace LSystem

open Sequence

/-- The number of segments at a level of a curve after so many passes. -/
def Profile.segmentsAt (profile : Profile) (n : Nat) (level : Int) : Nat :=
  if 1 ≤ level ∧ level ≤ n then profile.segments * profile.curves ^ (level - 1).toNat else 0

theorem Profile.segmentsAt_succ (profile : Profile) (n : Nat) (level : Int) :
    profile.segmentsAt (n + 1) level =
      profile.curves * profile.segmentsAt n (level - 1) + profile.segments * if level - 1 = 0 then 1 else 0 := by
  unfold segmentsAt
  by_cases hfirst : level = 1
  · subst hfirst
    simp
  · by_cases hinner : 1 ≤ level - 1 ∧ level - 1 ≤ n
    · have hpow : (level - 1).toNat = (level - 1 - 1).toNat + 1 := by omega
      rw [if_pos (by omega), if_pos hinner, if_neg (by omega), hpow, pow_succ]
      ring
    · rw [if_neg (by omega), if_neg hinner, if_neg (by omega), Nat.mul_zero, Nat.mul_zero]

def curveNames (sys : LSystem) : List String :=
  [sys.curveName .positive, sys.curveName .negative]

theorem not_mem_curveNames (sys : LSystem) {name : String} (h : name ∈ ["S", "T", "D"]) : name ∉ sys.curveNames := by
  intro hmem
  rcases List.mem_cons.mp hmem with heq | hmem
  · exact sys.curveName_ne .positive h heq.symm
  · exact sys.curveName_ne .negative h (List.mem_singleton.mp hmem).symm

theorem bracket?_opening (sys : LSystem) : sys.opening.bracket? sys.shrink sys.grow = some .U := by
  have hnumber : sys.opening.arg.bind Arg.number? = some sys.shrink := sys.factors.number_shrink
  rw [Operation.bracket?, if_pos (show sys.opening.name = "S" from rfl), if_pos hnumber]

theorem bracket?_closing (sys : LSystem) : sys.closing.bracket? sys.shrink sys.grow = some .D := by
  have hnumber : sys.closing.arg.bind Arg.number? = some sys.grow := sys.factors.number_grow
  have hne : ¬sys.closing.arg.bind Arg.number? = some sys.shrink := by
    rw [hnumber, Option.some.injEq]
    exact sys.factors.ne.symm
  rw [Operation.bracket?, if_pos (show sys.closing.name = "S" from rfl), if_neg hne, if_pos hnumber]

variable {sys : LSystem} {side : Float} {table : Table} {letter : Letter} {op : Operation}

theorem Stands.name_ne (h : sys.Stands side letter op) : op.name ≠ "S" := by
  rw [h.name]
  cases letter with
  | curve hand => exact sys.curveName_ne hand (by decide)
  | segment => exact show "D" ≠ "S" by decide
  | turn degrees => exact show "T" ≠ "S" by decide

section

variable (htable : table.Has (sys.rules side))

include htable

/-- What stands for one letter is nested, and its curves are as deep as passes were made. -/
theorem nested_letter (h : sys.Stands side letter op) (n : Nat) :
    Nested sys.shrink sys.grow sys.curveNames n (table.generation [op] n) := by
  -- A pass wraps what replaces a curve, so that it is one level deeper than the curve was.
  induction n generalizing letter op with
  | zero => exact nested_singleton h.name_ne fun _ => rfl
  | succ n ih =>
      rcases letter.stays_or_curve with hcurve | ⟨hand, rfl⟩
      · rw [generation_of_not_isCurve htable h hcurve]
        refine nested_singleton (sys.stands_op side letter).name_ne fun hmem => absurd hmem ?_
        cases letter with
        | curve hand => cases hcurve
        | segment => exact sys.not_mem_curveNames (show "D" ∈ _ by decide)
        | turn degrees => exact sys.not_mem_curveNames (show "T" ∈ _ by decide)
      · have hword := Nested.flatMap fun letter (_ : letter ∈ sys.word hand) => ih (sys.stands_op side letter)
        rw [generation_curve htable h.name]
        exact hword.wrap sys.bracket?_opening sys.bracket?_closing
          (sys.not_mem_curveNames (show "S" ∈ _ by decide)) (sys.not_mem_curveNames (show "S" ∈ _ by decide))

theorem nested_generation {letters : List Letter} {ops : Sequence} (h : List.Forall₂ (sys.Stands side) letters ops)
    (n : Nat) : Nested sys.shrink sys.grow sys.curveNames n (table.generation ops n) := by
  induction h with
  | nil =>
      rw [table.generation_nil]
      exact Nested.nil
  | @cons letter op letters ops hop _ ih =>
      rw [← List.singleton_append, table.generation_append]
      exact (nested_letter htable hop n).append ih

theorem countAt_of_not_isCurve (h : sys.Stands side letter op) (hcurve : letter.isCurve = false) (n : Nat)
    (level : Int) :
    countAt sys.shrink sys.grow "D" level (table.generation [op] n) =
      if letter.isSegment then if level = 0 then 1 else 0 else 0 := by
  rw [generation_of_not_isCurve htable h hcurve, countAt_singleton]
  cases letter with
  | curve hand => cases hcurve
  | segment => simp [LSystem.op, Operation.ofNumber, Letter.isSegment]
  | turn degrees => simp [LSystem.op, Operation.ofNumber, Letter.isSegment]

/-- How many segments a curve has at a level is told by the numbers of letters alone, for both hands the same. -/
theorem countAt_curve {profile : Profile} (hcounts : sys.Counts profile) {hand : TurnSign}
    (h : sys.Stands side (.curve hand) op) (n : Nat) (level : Int) :
    countAt sys.shrink sys.grow "D" level (table.generation [op] n) = profile.segmentsAt n level := by
  induction n generalizing hand op level with
  | zero =>
      have hname : op.name ≠ "D" := h.name.symm ▸ sys.curveName_ne hand (by decide)
      have hlevel : ¬(1 ≤ level ∧ level ≤ (0 : Nat)) := by omega
      rw [Table.generation, countAt_singleton, Profile.segmentsAt, if_neg hlevel]
      exact if_neg fun hplace => hname hplace.1
  | succ n ih =>
      have hnested : ∀ letter ∈ sys.word hand,
          Nested sys.shrink sys.grow sys.curveNames n (table.generation [sys.op side letter] n) :=
        fun letter _ => nested_letter htable (sys.stands_op side letter) n
      have hweights : (fun letter => countAt sys.shrink sys.grow "D" (level - 1)
          (table.generation [sys.op side letter] n)) = fun letter =>
            if letter.isCurve then profile.segmentsAt n (level - 1)
            else if letter.isSegment then if level - 1 = 0 then 1 else 0 else 0 := by
        funext letter
        rcases letter.stays_or_curve with hcurve | ⟨hand, rfl⟩
        · rw [countAt_of_not_isCurve htable (sys.stands_op side letter) hcurve, hcurve, if_neg Bool.false_ne_true]
        · exact ih (sys.stands_op side (.curve hand)) (level - 1)
      rw [generation_curve htable h.name,
        countAt_wrap sys.bracket?_opening (show "S" ≠ "D" by decide) (show "S" ≠ "D" by decide),
        countAt_flatMap hnested, hweights, Profile.segmentsAt_succ, ← hcounts.curves hand, ← hcounts.segments hand,
        ← Letter.sum_weights]

end

end LSystem

/-- The property holds of every generation of the family, for segments of this side, and its number. -/
def Family.EveryGeneration (family : Family) (side : Float) (property : Nat → Sequence → Prop) : Prop :=
  ∃ seed table, family.seed side = .ok seed ∧ family.table side = .ok table ∧
    ∀ n, property n (table.generation seed n)

theorem Family.everyGeneration_of_system {family : Family} {sys : LSystem} (hsys : family.system? = some sys)
    {side : Float} (hside : Parameter.sideLength.checkLength side = .ok ()) {property : Nat → Sequence → Prop}
    (h : ∀ (table : Table) (seed : Sequence), table.Has (sys.rules side) →
      List.Forall₂ (sys.Stands side) sys.seed seed → ∀ n, property n (table.generation seed n)) :
    family.EveryGeneration side property := by
  obtain ⟨table, htable, hhas⟩ := table_of_system hsys hside
  exact ⟨_, table, seed_eq hside family, htable, h table _ hhas (stands_seedOps hsys side)⟩

/-- Where the turns of the seed and of both rules cancel. -/
theorem Family.nested_of_system {family : Family} {sys : LSystem} (hsys : family.system? = some sys) {side : Float}
    (hside : Parameter.sideLength.checkLength side = .ok ())
    (hexact : ∀ hand, ∀ letter ∈ sys.word hand, letter.exact = true)
    (hrules : ∀ hand, ((sys.word hand).map (Letter.degrees fun _ => 0)).sum = 0)
    (hletters : ∀ letter ∈ sys.seed, letter.exact = true)
    (hsum : (sys.seed.map (Letter.degrees fun _ => 0)).sum = 0) :
    family.EveryGeneration side fun n ops =>
      Sequence.Nested sys.shrink sys.grow sys.curveNames n ops ∧ Sequence.netTurn? ops = some 0 := by
  apply everyGeneration_of_system hsys hside
  intro table seed hhas hseed n
  exact ⟨LSystem.nested_generation hhas hseed n,
    LSystem.netTurn?_eq_zero hhas hexact hrules hseed hletters hsum n⟩

/-- The segments at a level are those that one pass has put in. -/
theorem LSystem.countAt_hilbert {table : Table} {side : Float} {seed : Sequence}
    (htable : table.Has (hilbert.rules side)) (hseed : List.Forall₂ (hilbert.Stands side) hilbert.seed seed)
    {n level : Nat} (hfirst : 1 ≤ level) (hlast : level ≤ n) :
    Sequence.countAt 0.25 4 "D" level (table.generation seed n) = 3 * 4 ^ (level - 1) := by
  cases hseed with
  | cons hcurve hnil =>
      cases hnil
      have hlevel : ((level : Int) - 1).toNat = level - 1 := by omega
      have hcount := countAt_curve htable hilbert_counts hcurve n level
      rw [Profile.segmentsAt, if_pos (by omega), hlevel] at hcount
      exact hcount

theorem LSystem.netTurn?_sierpinski {table : Table} {side : Float} {seed : Sequence}
    (htable : table.Has (sierpinski.rules side)) (hseed : List.Forall₂ (sierpinski.Stands side) sierpinski.seed seed)
    (n : Nat) : Sequence.netTurn? (table.generation seed n) = some (if Odd n then 120 else 0) := by
  have hsum : (sierpinski.seed.map (Letter.degrees (sierpinski.degrees n))).sum = sierpinski.degrees n .negative :=
    Int.add_zero _
  rw [netTurn?_generation htable (by decide) hseed (by decide), hsum, degrees_sierpinski]
  split
  · rfl
  · rfl

/-- Scales nest and turns balance: in every generation the curves are as deep as there were passes, at each level
there are the segments that one pass has put in, and the turns cancel but for those of every other arrowhead. -/
theorem Family.scales_nest_turns_balance {side : Float} (hside : Parameter.sideLength.checkLength side = .ok ()) :
    hilbert.EveryGeneration side (fun n ops =>
        Sequence.Nested 0.25 4 ["A", "B"] n ops ∧
          (∀ level : Nat, 1 ≤ level → level ≤ n → Sequence.countAt 0.25 4 "D" level ops = 3 * 4 ^ (level - 1)) ∧
          Sequence.netTurn? ops = some 0) ∧
      eCurve.EveryGeneration side (fun n ops =>
        Sequence.Nested 0.2 5 ["DL", "DR"] n ops ∧ Sequence.netTurn? ops = some 0) ∧
      sierpinski.EveryGeneration side (fun n ops =>
        Sequence.Nested 0.5 2 ["DL", "DR"] n ops ∧ Sequence.netTurn? ops = some (if Odd n then 120 else 0)) ∧
      zigzag.EveryGeneration side (fun n ops =>
        Sequence.Nested 0.7071067811865476 1.4142135623730951 ["DL", "DR"] n ops ∧ Sequence.netTurn? ops = some 0) := by
  have heCurve : eCurve.system? = some .eCurve := rfl
  have hzigzag : zigzag.system? = some .zigzag := rfl
  refine ⟨?_, ?_, ?_, ?_⟩
  · apply everyGeneration_of_system rfl hside
    intro table seed hhas hseed n
    refine ⟨LSystem.nested_generation hhas hseed n, fun level hfirst hlast => ?_, ?_⟩
    · exact LSystem.countAt_hilbert hhas hseed hfirst hlast
    · exact LSystem.netTurn?_eq_zero hhas (by decide) (by decide) hseed (by decide) (by decide) n
  · exact nested_of_system heCurve hside (by decide) (by decide) (by decide) (by decide)
  · apply everyGeneration_of_system rfl hside
    intro table seed hhas hseed n
    exact ⟨LSystem.nested_generation hhas hseed n, LSystem.netTurn?_sierpinski hhas hseed n⟩
  · exact nested_of_system hzigzag hside (by decide) (by decide) (by decide) (by decide)

/-- Three passes on arrowheads with a side of 2.5. -/
theorem Family.scales_nest_turns_balance_arrowhead :
    ∃ seed table, sierpinski.seed 2.5 = .ok seed ∧ sierpinski.table 2.5 = .ok table ∧
      Sequence.Nested 0.5 2 ["DL", "DR"] 3 (table.generation seed 3) ∧
      Sequence.netTurn? (table.generation seed 3) = some 120 := by
  have hside : Parameter.sideLength.checkLength 2.5 = .ok () :=
    Parameter.checkLength_eq_ok_iff.mpr (by decide +kernel)
  obtain ⟨seed, table, hseed, htable, hgeneration⟩ := (scales_nest_turns_balance hside).2.2.1
  exact ⟨seed, table, hseed, htable, hgeneration 3⟩

end TurtleChain
