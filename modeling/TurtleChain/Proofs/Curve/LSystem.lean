import TurtleChain.Proofs.Curve.Rules
import TurtleChain.Proofs.Rewriting.Growth

/-! The rules of a family as words over three letters, each word between two changes of scale. How a letter is written
depends on the family and the side, but what a pass does with it does not, so whatever is counted in the words is
counted in the rules of every side length. -/

namespace TurtleChain

open Binary64

/-- What holds of both hands is decided for each of them. -/
instance (p : TurnSign → Prop) [DecidablePred p] : Decidable (∀ hand, p hand) :=
  decidable_of_iff (p .positive ∧ p .negative)
    ⟨fun h hand => TurnSign.casesOn hand h.2 h.1, fun h => ⟨h .positive, h .negative⟩⟩

inductive Letter where
  /-- What a pass replaces. -/
  | curve (hand : TurnSign)
  /-- A segment that stays. -/
  | segment
  | turn (degrees : Int)
  deriving DecidableEq

namespace Letter

def isCurve : Letter → Bool
  | curve _ => true
  | segment => false
  | turn _ => false

def isSegment : Letter → Bool
  | curve _ => false
  | segment => true
  | turn _ => false

theorem stays_or_curve (letter : Letter) : letter.isCurve = false ∨ ∃ hand, letter = curve hand := by
  cases letter with
  | curve hand => exact Or.inr ⟨hand, rfl⟩
  | segment => exact Or.inl rfl
  | turn degrees => exact Or.inl rfl

end Letter

namespace TurtleRule

def turnLetters (angle turns : Int) : List Letter :=
  if turns = 0 then [] else [.turn (turns * angle)]

/-- The word of a rule in turtle notation, behind `turns` turns not yet written. -/
def letters (angle turns : Int) : List Char → List Letter
  | [] => turnLetters angle turns
  | c :: cs =>
    if c = '+' then letters angle (turns + 1) cs
    else if c = '-' then letters angle (turns - 1) cs
    else if c = 'L' then turnLetters angle turns ++ .curve .positive :: letters angle 0 cs
    else if c = 'R' then turnLetters angle turns ++ .curve .negative :: letters angle 0 cs
    else letters angle turns cs

end TurtleRule

/-- Two factors that come back from their texts and can be told apart. -/
structure Factors (shrink grow : Float) : Prop where
  number_shrink : (Arg.ofNumber shrink).number? = some shrink
  number_grow : (Arg.ofNumber grow).number? = some grow
  ne : shrink ≠ grow

/-- A seed, and a rule for each hand. -/
structure LSystem where
  curveName : TurnSign → String
  /-- The argument of a curve in the rules for segments of this side. -/
  curveArg : Float → Option Arg
  shrink : Float
  grow : Float
  seed : List Letter
  word : TurnSign → List Letter
  names_ne : curveName .negative ≠ curveName .positive
  names_apart : ∀ hand, curveName hand ∉ ["S", "T", "D"]
  factors : Factors shrink grow

namespace LSystem

/-- Draws segments between its curves, which are written by bare names. -/
def hilbert : LSystem where
  curveName
    | .positive => "A"
    | .negative => "B"
  curveArg _ := none
  shrink := 0.25
  grow := 4
  seed := [.curve .positive]
  word hand :=
    let forth := 90 * hand.toInt
    [.turn (-forth), .curve hand.flipped, .segment, .turn forth, .curve hand, .segment, .curve hand, .turn forth,
      .segment, .curve hand.flipped, .turn (-forth)]
  names_ne := by decide
  names_apart := by decide
  factors := ⟨by decide +kernel, by decide +kernel, by decide +kernel⟩

/-- Two rules in turtle notation, whose curves are the segments. -/
def turtle (angle : Int) (shrink grow : Float) (left right : String) (factors : Factors shrink grow)
    (seed : List Letter) : LSystem where
  curveName
    | .positive => "DL"
    | .negative => "DR"
  curveArg side := some (.ofNumber side)
  shrink := shrink
  grow := grow
  seed := seed
  word
    | .positive => TurtleRule.letters angle 0 left.toList
    | .negative => TurtleRule.letters angle 0 right.toList
  names_ne := by decide
  names_apart := by decide
  factors := factors

def eCurve : LSystem :=
  turtle 90 0.2 5 "LL+R+R-L-L+R+RL-R-LLR+L-R-LL-R+LR+R+L-L-RR+" "-LL+R+R-L-LR-L+RR+L+R-LRR+L+RL-L-R+R+L-L-RR"
    ⟨by decide +kernel, by decide +kernel, by decide +kernel⟩ [.curve .positive]

def sierpinski : LSystem :=
  turtle 60 0.5 2 "R-L-R" "L+R+L" ⟨by decide +kernel, by decide +kernel, by decide +kernel⟩ [.curve .negative]

def zigzag : LSystem :=
  turtle 45 0.7071067811865476 1.4142135623730951 "+L--R+" "-L++R-"
    ⟨by decide +kernel, by decide +kernel, by decide +kernel⟩
    [.turn 45, .curve .positive, .turn (-90), .curve .negative, .turn 90, .curve .positive, .turn (-90),
      .curve .negative, .turn 45]

variable (sys : LSystem) (side : Float)

def op : Letter → Operation
  | .curve hand => ⟨sys.curveName hand, sys.curveArg side⟩
  | .segment => .ofNumber "D" side
  | .turn degrees => .ofNumber "T" (Float.ofInt degrees)

def opening : Operation :=
  .ofNumber "S" sys.shrink

def closing : Operation :=
  .ofNumber "S" sys.grow

def rule (hand : TurnSign) : Sequence :=
  sys.opening :: ((sys.word hand).map (sys.op side) ++ [sys.closing])

def rules : List (String × Sequence) :=
  [(sys.curveName .positive, sys.rule side .positive), (sys.curveName .negative, sys.rule side .negative)]

/-! ### The rules of the families -/

theorem op_turnLetters {angle : Int} (hangle : angle ≠ 0) {most : Nat} (hmost : most * angle.natAbs < 2 ^ 53)
    {turns : Int} (h : turns.natAbs ≤ most) :
    (TurtleRule.turnLetters angle turns).map (sys.op side) = TurtleRule.turnOps (Float.ofInt angle) turns := by
  unfold TurtleRule.turnLetters TurtleRule.turnOps
  split
  · rfl
  · next hturns =>
      rw [(TurtleRule.ofInt_turns hangle hmost hturns h).2]
      rfl

/-- The word of a rule stands for the operations that the rule is read as. -/
theorem op_letters {angle : Int} (hangle : angle ≠ 0) {most : Nat} (hmost : most * angle.natAbs < 2 ^ 53)
    {shrink grow : Float} {left right : String} {factors : Factors shrink grow} {seed : List Letter} {turns : Int}
    {cs : List Char} (h : turns.natAbs + cs.length ≤ most) :
    (TurtleRule.letters angle turns cs).map ((turtle angle shrink grow left right factors seed).op side) =
      TurtleRule.stepOps side (Float.ofInt angle) turns cs := by
  induction cs generalizing turns with
  | nil => exact op_turnLetters _ side hangle hmost (Nat.le_of_add_right_le h)
  | cons c cs ih =>
      rw [List.length_cons] at h
      have hturns := op_turnLetters (turtle angle shrink grow left right factors seed) side hangle hmost
        (show turns.natAbs ≤ most by omega)
      have hrest := ih (show (0 : Int).natAbs + cs.length ≤ most by omega)
      unfold TurtleRule.letters TurtleRule.stepOps
      split
      · exact ih (by omega)
      split
      · exact ih (by omega)
      split
      · rw [List.map_append, List.map_cons, hturns, hrest]
        rfl
      split
      · rw [List.map_append, List.map_cons, hturns, hrest]
        rfl
      · exact ih (by omega)

theorem turtle_rules {angle : Int} (hangle : angle ≠ 0) {shrink grow : Float} {left right : String}
    (factors : Factors shrink grow) (seed : List Letter) (hleft : left.toList.length * angle.natAbs < 2 ^ 53)
    (hright : right.toList.length * angle.natAbs < 2 ^ 53) :
    (turtle angle shrink grow left right factors seed).rules side =
      [("DL", TurtleRule.wrappedOps side (Float.ofInt angle) shrink grow left),
        ("DR", TurtleRule.wrappedOps side (Float.ofInt angle) shrink grow right)] := by
  have hsteps : ∀ rule : String, rule.toList.length * angle.natAbs < 2 ^ 53 →
      (TurtleRule.letters angle 0 rule.toList).map ((turtle angle shrink grow left right factors seed).op side) =
        TurtleRule.stepOps side (Float.ofInt angle) 0 rule.toList := by
    intro rule hrule
    exact op_letters side hangle hrule (by simp)
  unfold TurtleRule.wrappedOps
  rw [← hsteps left hleft, ← hsteps right hright]
  rfl

end LSystem

/-- The rules of the families whose curves grow by rules for two hands. -/
def Family.system? : Family → Option LSystem
  | hilbert => some .hilbert
  | eCurve => some .eCurve
  | sierpinski => some .sierpinski
  | zigzag => some .zigzag
  | generic => none

theorem Family.ruleOps_of_system {family : Family} {sys : LSystem} (h : family.system? = some sys) (side : Float) :
    family.ruleOps side = sys.rules side := by
  cases family with
  | hilbert =>
      cases h
      rfl
  | eCurve =>
      cases h
      exact (LSystem.turtle_rules side (show (90 : Int) ≠ 0 by decide) _ _ (by decide) (by decide)).symm
  | sierpinski =>
      cases h
      exact (LSystem.turtle_rules side (show (60 : Int) ≠ 0 by decide) _ _ (by decide) (by decide)).symm
  | zigzag =>
      cases h
      exact (LSystem.turtle_rules side (show (45 : Int) ≠ 0 by decide) _ _ (by decide) (by decide)).symm
  | generic => cases h

/-- The operation is one that the letter is written as, if its argument is the same or is not looked at. -/
structure LSystem.Stands (sys : LSystem) (side : Float) (letter : Letter) (op : Operation) : Prop where
  name : op.name = (sys.op side letter).name
  eq : letter.isCurve = false → op = sys.op side letter

theorem LSystem.stands_op (sys : LSystem) (side : Float) (letter : Letter) :
    sys.Stands side letter (sys.op side letter) :=
  ⟨rfl, fun _ => rfl⟩

theorem LSystem.names_of_stands {sys : LSystem} {side : Float} {letters : List Letter} {ops : Sequence}
    (h : List.Forall₂ (sys.Stands side) letters ops) :
    ops.map Operation.name = (letters.map (sys.op side)).map Operation.name := by
  induction h with
  | nil => rfl
  | cons hop _ ih => rw [List.map_cons, List.map_cons, List.map_cons, hop.name, ih]

/-- Seeds may draw segments of other lengths. -/
theorem Family.stands_seedOps {family : Family} {sys : LSystem} (h : family.system? = some sys) (side : Float) :
    List.Forall₂ (sys.Stands side) sys.seed (family.seedOps side) := by
  cases family with
  | hilbert =>
      cases h
      exact .cons ⟨rfl, fun _ => rfl⟩ .nil
  | eCurve =>
      cases h
      exact .cons ⟨rfl, nofun⟩ .nil
  | sierpinski =>
      cases h
      exact .cons ⟨rfl, nofun⟩ .nil
  | zigzag =>
      cases h
      exact List.forall₂_map_right_iff.mpr (List.forall₂_same.mpr fun letter _ => LSystem.stands_op _ side letter)
  | generic => cases h

/-- The table of a family with such rules. -/
theorem Family.table_of_system {family : Family} {sys : LSystem} (h : family.system? = some sys) {side : Float}
    (hside : Parameter.sideLength.checkLength side = .ok ()) :
    ∃ table, family.table side = .ok table ∧ table.Has (sys.rules side) := by
  rw [← ruleOps_of_system h side]
  refine table_eq hside ?_
  rintro rfl
  cases h

namespace LSystem

/-! ### Passes -/

theorem curveName_ne (sys : LSystem) (hand : TurnSign) {name : String} (h : name ∈ ["S", "T", "D"]) :
    sys.curveName hand ≠ name :=
  fun heq => sys.names_apart hand (heq ▸ h)

/-- The letters of a word grow apart from each other. -/
theorem generation_word (sys : LSystem) (side : Float) (table : Table) (letters : List Letter) (n : Nat) :
    table.generation (letters.map (sys.op side)) n =
      letters.flatMap fun letter => table.generation [sys.op side letter] n := by
  rw [Table.generation_eq_flatMap, List.flatMap_map]

variable {sys : LSystem} {side : Float} {table : Table} (htable : table.Has (sys.rules side))

include htable

theorem get?_curveName (hand : TurnSign) : table.get? (sys.curveName hand) = some (sys.rule side hand) := by
  rw [htable.get?, rules, NameMap.lookup_cons, NameMap.lookup_cons]
  cases hand with
  | positive => rw [if_pos rfl]
  | negative => rw [if_neg sys.names_ne, if_pos rfl]

theorem get?_of_apart {name : String} (h : name ∈ ["S", "T", "D"]) : table.get? name = none := by
  have hne : ∀ hand, name ≠ sys.curveName hand := fun hand => (sys.curveName_ne hand h).symm
  rw [htable.get?, rules, NameMap.lookup_cons, NameMap.lookup_cons, if_neg (hne _), if_neg (hne _)]
  rfl

theorem exists_hand_of_get? {name : String} {body : Sequence} (h : table.get? name = some body) :
    ∃ hand, name = sys.curveName hand ∧ body = sys.rule side hand := by
  rw [htable.get?, rules, NameMap.lookup_cons, NameMap.lookup_cons] at h
  split at h
  · next hname => exact ⟨.positive, hname, (Option.some.inj h).symm⟩
  split at h
  · next hname => exact ⟨.negative, hname, (Option.some.inj h).symm⟩
  · cases h

theorem replaces_curveName {op : Operation} {hand : TurnSign} (h : op.name = sys.curveName hand) :
    table.replaces op = true := by
  have hget : table.rules.get? op.name = some (sys.rule side hand) := h ▸ get?_curveName htable hand
  rw [Table.replaces, Table.contains, NameMap.contains, hget]
  rfl

theorem replaces_apart {op : Operation} (h : op.name ∈ ["S", "T", "D"]) : table.replaces op = false := by
  have hget : table.rules.get? op.name = none := get?_of_apart htable h
  rw [Table.replaces, Table.contains, NameMap.contains, hget]
  rfl

theorem replaces_op (letter : Letter) : table.replaces (sys.op side letter) = letter.isCurve := by
  cases letter with
  | curve hand => exact replaces_curveName htable rfl
  | segment => exact replaces_apart htable (by simp [op, Operation.ofNumber])
  | turn degrees => exact replaces_apart htable (by simp [op, Operation.ofNumber])

theorem generation_apart {op : Operation} (h : op.name ∈ ["S", "T", "D"]) (n : Nat) :
    table.generation [op] n = [op] :=
  table.generation_singleton_of_none (get?_of_apart htable h) n

theorem generation_of_not_isCurve {letter : Letter} {op : Operation} (h : sys.Stands side letter op)
    (hcurve : letter.isCurve = false) (n : Nat) : table.generation [op] n = [sys.op side letter] := by
  rw [h.eq hcurve]
  cases letter with
  | curve hand => cases hcurve
  | segment => exact generation_apart htable (show "D" ∈ _ by decide) n
  | turn degrees => exact generation_apart htable (show "T" ∈ _ by decide) n

/-- A curve becomes what the letters of its rule become one pass later, between the two changes of scale. -/
theorem generation_curve {op : Operation} {hand : TurnSign} (h : op.name = sys.curveName hand) (n : Nat) :
    table.generation [op] (n + 1) =
      sys.opening :: ((sys.word hand).flatMap (fun letter => table.generation [sys.op side letter] n) ++
        [sys.closing]) := by
  have hreplacement : table.replacement op = [sys.opening] ++ ((sys.word hand).map (sys.op side) ++ [sys.closing]) := by
    rw [Table.replacement, h, get?_curveName htable]
    rfl
  rw [Table.generation_singleton_succ, hreplacement, Table.generation_append, Table.generation_append,
    generation_apart htable (show sys.opening.name ∈ _ from List.mem_cons_self),
    generation_apart htable (show sys.closing.name ∈ _ from List.mem_cons_self), generation_word]
  rfl

end LSystem

end TurtleChain
