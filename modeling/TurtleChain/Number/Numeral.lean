import TurtleChain.Number.Decimal

/-! Numbers as they are spelled: an optional sign, digits with an optional point among them, and an
optional power of ten. `readFloat?` also knows the words for what is no number. -/

namespace TurtleChain

/-- A spelled number, its digits as written. -/
structure Numeral where
  negative : Bool
  whole : List Char
  fraction : List Char
  exponent : Int

namespace Numeral

def toDecimal (n : Numeral) : Decimal :=
  ⟨Nat.ofDigitChars 10 (n.whole ++ n.fraction) 0, n.exponent - n.fraction.length⟩

/-- The double nearest to the spelled number. -/
def toFloat (n : Numeral) : Float :=
  n.toDecimal.toFloat n.negative

/-- Splits off one sign, true for a minus. -/
def splitSign : List Char → Bool × List Char
  | '-' :: rest => (true, rest)
  | '+' :: rest => (false, rest)
  | rest => (false, rest)

/-- Splits off the digits in front. -/
def splitDigits (cs : List Char) : List Char × List Char :=
  (cs.takeWhile Char.isDigit, cs.dropWhile Char.isDigit)

def applySign (negative : Bool) (n : Nat) : Int :=
  if negative then -(n : Int) else n

/-- A sign and at least one digit, and nothing else. -/
def readInt? (cs : List Char) : Option Int :=
  let (negative, digits) := splitSign cs
  if digits ≠ [] ∧ digits.all Char.isDigit then
    some (applySign negative (Nat.ofDigitChars 10 digits 0))
  else none

/-- Nothing, or the mark of an exponent and a signed integer. -/
def readExponent? : List Char → Option Int
  | [] => some 0
  | c :: rest => if c = 'e' ∨ c = 'E' then readInt? rest else none

/-- A spelled number with a digit before or behind the point. -/
def read? (cs : List Char) : Option Numeral :=
  let (negative, rest) := splitSign cs
  let (whole, rest) := splitDigits rest
  let (fraction, rest) :=
    match rest with
    | '.' :: rest => splitDigits rest
    | rest => ([], rest)
  if whole = [] ∧ fraction = [] then none
  else (readExponent? rest).map fun exponent => ⟨negative, whole, fraction, exponent⟩

/-- The signed words for the values that have no digits, in any case. -/
def readWord? (cs : List Char) : Option Float :=
  let (negative, rest) := splitSign cs
  let word := String.ofList (rest.map Char.toLower)
  if word = "nan" then some (0.0 / 0.0)
  else if word = "inf" ∨ word = "infinity" then
    some (Binary64.ofMagnitudeBits negative Binary64.infinityBits)
  else none

end Numeral

/-- Reads a double from its whole text. -/
def readFloat? (text : String) : Option Float :=
  match Numeral.read? text.toList with
  | some n => some n.toFloat
  | none => Numeral.readWord? text.toList

/-- Reads an integer from its whole text: a sign and at least one digit. -/
def readInt? (text : String) : Option Int :=
  Numeral.readInt? text.toList

end TurtleChain
