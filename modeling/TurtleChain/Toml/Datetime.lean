/-! Dates and times of day in TOML, as they are spelled. A time stands behind a date and may have an offset
there, or it stands alone. -/

namespace TurtleChain.Toml.Datetime

def isLeapYear (year : Nat) : Bool :=
  year % 4 == 0 && (year % 100 != 0 || year % 400 == 0)

def daysIn (year month : Nat) : Nat :=
  if month = 2 then if isLeapYear year then 29 else 28
  else if [4, 6, 9, 11].contains month then 30
  else 31

private def number? (digits : List Char) : Option Nat :=
  if digits.all Char.isDigit then some (Nat.ofDigitChars 10 digits 0) else none

/-- The digits spell a number in a range. -/
private def spellsIn (least greatest : Nat) (digits : List Char) : Bool :=
  (number? digits).any fun n => decide (least ≤ n) && decide (n ≤ greatest)

/-- A year of four digits, a month, and a day that the month has. -/
def isDate : List Char → Bool
  | [y₁, y₂, y₃, y₄, '-', m₁, m₂, '-', d₁, d₂] =>
    match number? [y₁, y₂, y₃, y₄], number? [m₁, m₂] with
    | some year, some month =>
      spellsIn 1 12 [m₁, m₂] && spellsIn 1 (daysIn year month) [d₁, d₂]
    | _, _ => false
  | _ => false

/-- What stands behind a point and digits; without both, the text itself. -/
private def afterFraction : List Char → List Char
  | '.' :: d :: rest => if d.isDigit then rest.dropWhile Char.isDigit else '.' :: d :: rest
  | cs => cs

/-- What stands behind hours, minutes and seconds. A minute may have a leap second. -/
def afterTime? : List Char → Option (List Char)
  | h₁ :: h₂ :: ':' :: m₁ :: m₂ :: ':' :: s₁ :: s₂ :: rest =>
    if spellsIn 0 23 [h₁, h₂] && spellsIn 0 59 [m₁, m₂] && spellsIn 0 60 [s₁, s₂] then
      some (afterFraction rest)
    else none
  | _ => none

/-- The distance to universal time: a letter for none, or hours and minutes behind a sign. -/
def isOffset : List Char → Bool
  | [c] => c == 'Z' || c == 'z'
  | [sign, h₁, h₂, ':', m₁, m₂] =>
    (sign == '+' || sign == '-') && spellsIn 0 23 [h₁, h₂] && spellsIn 0 59 [m₁, m₂]
  | _ => false

/-- A date, a time, or a date and a time with a letter or a blank between them. -/
def isDatetime (cs : List Char) : Bool :=
  isDate cs || (afterTime? cs).any List.isEmpty ||
    match cs.drop 10 with
    | mark :: time =>
      isDate (cs.take 10) && ['T', 't', ' '].contains mark &&
        (afterTime? time).any fun rest => rest.isEmpty || isOffset rest
    | [] => false

end TurtleChain.Toml.Datetime
