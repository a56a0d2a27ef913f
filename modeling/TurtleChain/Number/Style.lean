import TurtleChain.Number.Decimal

/-! The text of a double. The digits are the fewest that read back; a `NumeralStyle` holds what is left
to decide: which of two equal choices is taken, where positional writing ends, what a whole number ends
in, and the words for what is no number. -/

namespace TurtleChain

structure NumeralStyle where
  tie : Tie
  /-- Exponents of the leading digit that are written positionally, all of them if `none`. -/
  plainWindow : Option (Int × Int)
  /-- What follows a whole number in positional writing. -/
  wholeEnding : String
  nan : String
  infinity : String

namespace Decimal

def zeros (n : Int) : List Char :=
  List.replicate n.toNat '0'

/-- Positional text, with no exponent. -/
def plain (wholeEnding : String) (d : Decimal) : String :=
  let ds := Nat.toDigits 10 d.digits
  let point := ds.length + d.exponent
  if 0 ≤ d.exponent then String.ofList (ds ++ zeros d.exponent) ++ wholeEnding
  else if 0 < point then String.ofList (ds.take point.toNat ++ '.' :: ds.drop point.toNat)
  else String.ofList ('0' :: '.' :: zeros (-point) ++ ds)

/-- One digit, the other digits behind a point if there are any, and a signed exponent. -/
def scientific (d : Decimal) : String :=
  let ds := Nat.toDigits 10 d.digits
  let e := ds.length + d.exponent - 1
  let tail := if ds.length ≤ 1 then [] else '.' :: ds.drop 1
  String.ofList (ds.take 1 ++ tail) ++ (if e < 0 then "e-" else "e+") ++ toString e.natAbs

/-- The exponent of the leading digit. -/
def leadingExponent (d : Decimal) : Int :=
  (Nat.toDigits 10 d.digits).length + d.exponent - 1

end Decimal

namespace NumeralStyle

def magnitude (style : NumeralStyle) (x : Float) : String :=
  let d := Decimal.shortest style.tie x
  match style.plainWindow with
  | none => d.plain style.wholeEnding
  | some (least, greatest) =>
    if d.digits = 0 || (decide (least ≤ d.leadingExponent) && decide (d.leadingExponent ≤ greatest)) then
      d.plain style.wholeEnding
    else d.scientific

def render (style : NumeralStyle) (x : Float) : String :=
  if x.isNaN then style.nan
  else
    let text := if x.isFinite then style.magnitude x else style.infinity
    if Binary64.isNegative x then "-" ++ text else text

end NumeralStyle

/-- Positional at every size, and nothing behind a whole number. -/
def plainStyle : NumeralStyle where
  tie := .up
  plainWindow := none
  wholeEnding := ""
  nan := "NaN"
  infinity := "inf"

/-- The positional text of a double. -/
def plainText (x : Float) : String :=
  plainStyle.render x

end TurtleChain
