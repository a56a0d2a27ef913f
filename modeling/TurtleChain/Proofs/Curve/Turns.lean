import TurtleChain.Proofs.Curve.LSystem

/-! How far a generation turns in all. The turns of a curve are those of its rule and of the curves in it, so they obey
a recurrence over the passes with one value for each hand. -/

namespace TurtleChain

open Binary64

namespace Sequence

/-- The sum of the arguments of all turns, if each of them has a number. -/
def netTurn? : Sequence → Option ℚ
  | [] => some 0
  | op :: ops =>
    if op.name = "T" then
      (op.arg.bind Arg.number?).bind fun degrees => (netTurn? ops).map fun rest => toRat degrees + rest
    else netTurn? ops

theorem netTurn?_append {ops ops' : Sequence} {degrees degrees' : ℚ} (h : netTurn? ops = some degrees)
    (h' : netTurn? ops' = some degrees') : netTurn? (ops ++ ops') = some (degrees + degrees') := by
  induction ops generalizing degrees with
  | nil =>
      cases h
      rw [List.nil_append, h', zero_add]
  | cons op ops ih =>
      rw [netTurn?] at h
      rw [List.cons_append, netTurn?]
      split at h
      · next hname =>
          obtain ⟨own, hown, h⟩ := Option.bind_eq_some_iff.mp h
          obtain ⟨rest, hrest, rfl⟩ := Option.map_eq_some_iff.mp h
          rw [if_pos hname, hown, Option.bind_some, ih hrest, Option.map_some, add_assoc]
      · next hname => rw [if_neg hname, ih h]

theorem netTurn?_flatMap {α : Type} {items : List α} {parts : α → Sequence} {degrees : α → Int}
    (h : ∀ item ∈ items, netTurn? (parts item) = some (degrees item : ℚ)) :
    netTurn? (items.flatMap parts) = some (((items.map degrees).sum : Int) : ℚ) := by
  induction items with
  | nil => rfl
  | cons item items ih =>
      obtain ⟨hitem, hitems⟩ := List.forall_mem_cons.mp h
      rw [List.flatMap_cons, netTurn?_append hitem (ih hitems), List.map_cons, List.sum_cons, Int.cast_add]

theorem netTurn?_singleton_of_ne {op : Operation} (h : op.name ≠ "T") : netTurn? [op] = some 0 :=
  if_neg h

theorem netTurn?_turn {degrees : Int} (h : degrees ≠ 0) (hlt : degrees.natAbs < 2 ^ 53) :
    netTurn? [.ofNumber "T" (Float.ofInt degrees)] = some (degrees : ℚ) := by
  have hturn : netTurn? [.ofNumber "T" (Float.ofInt degrees)] =
      ((Arg.ofNumber (Float.ofInt degrees)).number?).bind fun own => some (toRat own + 0) := if_pos rfl
  rw [hturn, Arg.number?_ofInt h hlt, Option.bind_some, toRat_ofInt hlt, add_zero]

end Sequence

namespace Letter

/-- Turns that can be told from none and are exact as doubles. -/
def exact : Letter → Bool
  | curve _ => true
  | segment => true
  | turn degrees => degrees != 0 && decide (degrees.natAbs < 2 ^ 53)

/-- The turns that a letter stands for, given those of the curves. -/
def degrees (curves : TurnSign → Int) : Letter → Int
  | curve hand => curves hand
  | segment => 0
  | turn degrees => degrees

end Letter

namespace LSystem

/-- The turns of a curve of each hand after so many passes. -/
def degrees (sys : LSystem) : Nat → TurnSign → Int
  | 0, _ => 0
  | n + 1, hand => ((sys.word hand).map (Letter.degrees (sys.degrees n))).sum

variable {sys : LSystem} {side : Float} {table : Table}

/-- Where the turns of both rules cancel, the turns of every generation do. -/
theorem degrees_eq_zero (h : ∀ hand, ((sys.word hand).map (Letter.degrees fun _ => 0)).sum = 0) (n : Nat)
    (hand : TurnSign) : sys.degrees n hand = 0 := by
  induction n generalizing hand with
  | zero => rfl
  | succ n ih =>
      rw [degrees, funext ih]
      exact h hand

/-- The turns of an arrowhead: two sixths, or none, and opposite for the hands. -/
theorem degrees_sierpinski (n : Nat) (hand : TurnSign) :
    sierpinski.degrees n hand = if Odd n then -(120 * hand.toInt) else 0 := by
  induction n generalizing hand with
  | zero => rfl
  | succ n ih =>
      rw [degrees, funext ih]
      by_cases hodd : Odd n
      · have heven : ¬Odd (n + 1) := by rwa [Nat.odd_add_one, not_not]
        simp only [if_pos hodd, if_neg heven]
        cases hand <;> decide
      · have hodd' : Odd (n + 1) := Nat.odd_add_one.mpr hodd
        simp only [if_neg hodd, if_pos hodd']
        cases hand <;> decide

theorem netTurn?_stands {letter : Letter} {op : Operation} (h : sys.Stands side letter op)
    (hletter : letter.exact = true) :
    Sequence.netTurn? [op] = some (letter.degrees (sys.degrees 0) : ℚ) := by
  cases letter with
  | curve hand =>
      refine Sequence.netTurn?_singleton_of_ne fun hname => ?_
      exact sys.curveName_ne hand (show "T" ∈ _ by decide) (h.name.symm.trans hname)
  | segment =>
      rw [h.eq rfl]
      exact Sequence.netTurn?_singleton_of_ne (show "D" ≠ "T" by decide)
  | turn degrees =>
      rw [h.eq rfl]
      rw [Letter.exact, Bool.and_eq_true, bne_iff_ne, decide_eq_true_iff] at hletter
      exact Sequence.netTurn?_turn hletter.1 hletter.2

section

variable (htable : table.Has (sys.rules side))
  (hexact : ∀ hand, ∀ letter ∈ sys.word hand, letter.exact = true)

include htable hexact

/-- A letter turns by its own degrees at every pass, a curve by those of its generation. -/
theorem netTurn?_letter {letter : Letter} {op : Operation} (h : sys.Stands side letter op)
    (hletter : letter.exact = true) (n : Nat) :
    Sequence.netTurn? (table.generation [op] n) = some (letter.degrees (sys.degrees n) : ℚ) := by
  induction n generalizing letter op with
  | zero => exact netTurn?_stands h hletter
  | succ n ih =>
      rcases letter.stays_or_curve with hcurve | ⟨hand, rfl⟩
      · rw [generation_of_not_isCurve htable h hcurve, netTurn?_stands (sys.stands_op side letter) hletter]
        cases letter with
        | curve hand => cases hcurve
        | segment => rfl
        | turn degrees => rfl
      · have hword := Sequence.netTurn?_flatMap fun letter hmem =>
          ih (sys.stands_op side letter) (hexact hand letter hmem)
        have hopening : Sequence.netTurn? [sys.opening] = some 0 := rfl
        have hclosing : Sequence.netTurn? [sys.closing] = some 0 := rfl
        rw [generation_curve htable h.name, ← List.singleton_append,
          Sequence.netTurn?_append hopening (Sequence.netTurn?_append hword hclosing), zero_add, add_zero]
        rfl

theorem netTurn?_generation {letters : List Letter} {ops : Sequence} (h : List.Forall₂ (sys.Stands side) letters ops)
    (hletters : ∀ letter ∈ letters, letter.exact = true) (n : Nat) :
    Sequence.netTurn? (table.generation ops n) =
      some (((letters.map (Letter.degrees (sys.degrees n))).sum : Int) : ℚ) := by
  induction h with
  | nil =>
      rw [table.generation_nil]
      rfl
  | @cons letter op letters ops hop _ ih =>
      obtain ⟨hletter, hletters⟩ := List.forall_mem_cons.mp hletters
      rw [← List.singleton_append, table.generation_append,
        Sequence.netTurn?_append (netTurn?_letter htable hexact hop hletter n) (ih hletters), List.map_cons,
        List.sum_cons, Int.cast_add]

/-- Where the turns of the seed and of both rules cancel, so do those of every generation. -/
theorem netTurn?_eq_zero (hrules : ∀ hand, ((sys.word hand).map (Letter.degrees fun _ => 0)).sum = 0)
    {letters : List Letter} {ops : Sequence} (h : List.Forall₂ (sys.Stands side) letters ops)
    (hletters : ∀ letter ∈ letters, letter.exact = true)
    (hsum : (letters.map (Letter.degrees fun _ => 0)).sum = 0) (n : Nat) :
    Sequence.netTurn? (table.generation ops n) = some 0 := by
  rw [netTurn?_generation htable hexact h hletters, funext (degrees_eq_zero hrules n), hsum, Int.cast_zero]

end

end LSystem

end TurtleChain
