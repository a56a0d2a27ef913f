import TurtleChain.Number.Binary64

/-! Decimal numbers `digits * 10 ^ exponent`, and the double that each of them reads as. -/

namespace TurtleChain

/-- The number `digits * 10 ^ exponent`. -/
structure Decimal where
  digits : Nat
  exponent : Int
  deriving DecidableEq, Repr

namespace Decimal

def dropZeros (digits : Nat) (exponent : Int) : Decimal :=
  if h : digits ≠ 0 ∧ digits % 10 = 0 then dropZeros (digits / 10) (exponent + 1)
  else ⟨digits, exponent⟩
termination_by digits
decreasing_by exact Nat.div_lt_self (Nat.pos_of_ne_zero h.1) (by decide)

/-- The same number with no zero at the end of its digits. -/
def trimmed (d : Decimal) : Decimal :=
  dropZeros d.digits d.exponent

/-- The double nearest to the decimal. Past the first two guards lies every double's range, so the
powers of ten stay small whatever exponent was written. -/
def toFloat (negative : Bool) (d : Decimal) : Float :=
  if d.digits = 0 then Binary64.ofMagnitudeBits negative 0
  else if 400 < d.exponent then Binary64.ofMagnitudeBits negative Binary64.infinityBits
  else if d.exponent < -(400 + (d.digits.log2 : Int)) then Binary64.ofMagnitudeBits negative 0
  else Binary64.nearest negative (d.digits * Nat.pow 10 d.exponent.toNat) (Nat.pow 10 (-d.exponent).toNat)

/-- The exact value of the magnitude of a finite double. -/
def exact (x : Float) : Decimal :=
  let down := (-Binary64.scale x).toNat
  ⟨Binary64.significand x * Nat.pow 2 (Binary64.scale x).toNat * Nat.pow 5 down, -(down : Int)⟩

/-- The decimal reads as the magnitude of `x`. -/
def readsAs (x : Float) (d : Decimal) : Bool :=
  (d.toFloat false).toBits.toNat == Binary64.magnitudeBits x

end Decimal

/-- Which of two equally near decimals of one length is written. -/
inductive Tie where
  | up
  | toEven
  deriving DecidableEq, Repr

namespace Decimal

/-- The number of digits before the decimal point of a value of at least one, and minus the number of
zeros right behind the point of a smaller one: the least `k` with `num / den < 10 ^ k`. -/
def magnitude (num den : Nat) : Int :=
  let guess := Binary64.floorLog2 num den * 30103 / 100000
  let below (k : Int) : Bool := decide (num * Nat.pow 10 (-k).toNat < den * Nat.pow 10 k.toNat)
  if below guess then guess else if below (guess + 1) then guess + 1 else guess + 2

/-- Of the two neighbours of `num / den` on the grid of step `10 ^ exponent` those that read as `x`, the
nearer one. -/
def onGrid? (tie : Tie) (x : Float) (num den : Nat) (exponent : Int) : Option Decimal :=
  let unit := den * Nat.pow 10 exponent.toNat
  let scaled := num * Nat.pow 10 (-exponent).toNat
  let low : Decimal := ⟨scaled / unit, exponent⟩
  let high : Decimal := ⟨scaled / unit + 1, exponent⟩
  match low.readsAs x, high.readsAs x with
  | false, false => none
  | true, false => some low
  | false, true => some high
  | true, true =>
    match compare (2 * (scaled % unit)) unit, tie with
    | .lt, _ => some low
    | .gt, _ => some high
    | .eq, .up => some high
    | .eq, .toEven => if low.digits % 2 = 0 then some low else some high

/-- The decimal of fewest digits that reads as the magnitude of a finite `x`, and of those the nearest.
A whole number below `2 ^ 53` is the only decimal of its length that reads as itself, so it is taken as it
stands. -/
def shortest (tie : Tie) (x : Float) : Decimal :=
  if Binary64.isWhole x && decide (Binary64.floorMagnitude x < Nat.pow 2 53) then
    trimmed ⟨Binary64.floorMagnitude x, 0⟩
  else
    let num := Binary64.significand x * Nat.pow 2 (Binary64.scale x).toNat
    let den := Nat.pow 2 (-Binary64.scale x).toNat
    let top := magnitude num den
    let found := (List.range 17).findSome? fun n => onGrid? tie x num den (top - (n + 1 : Nat))
    (found.getD (exact x)).trimmed

end Decimal

end TurtleChain
