import TurtleChain.Json.Reader
import TurtleChain.Number.Range

/-! Reading numbers, options, records and variants out of JSON values. -/

namespace TurtleChain.Json

def toString? : Json → Option String
  | string content => some content
  | _ => none

def toList? {α : Type} (decode : Json → Option α) : Json → Option (List α)
  | array items => items.mapM decode
  | _ => none

def toOption? {α : Type} (decode : Json → Option α) : Json → Option (Option α)
  | null => some none
  | value => (decode value).map some

def toBool? : Json → Option Bool
  | bool value => some value
  | _ => none

/-- An integer in a range. A point, an exponent or a signed zero makes a number a double, from which no
integer is read. -/
def toInt? (least greatest : Int) : Json → Option Int
  | number spelling =>
    if spelling = "-0" then none
    else do
      let n ← readInt? spelling
      if least ≤ n ∧ n ≤ greatest then some n else none
  | _ => none

/-- An integer of 64 bits with a sign. -/
def toInt64? (value : Json) : Option Int :=
  value.toInt? (-int64Limit) (int64Limit - 1)

/-- A natural number below the limit. -/
def toNat? (limit : Nat) (value : Json) : Option Nat :=
  (value.toInt? 0 (limit - 1)).map Int.toNat

/-- Takes digits behind `significand` as long as the number fits 64 bits; answers with the number and the
count of digits taken. -/
def takeDigits (significand taken : Nat) : List Char → Nat × Nat
  | [] => (significand, taken)
  | d :: ds =>
    let next := 10 * significand + (d.toNat - 48)
    if next < UInt64.size then takeDigits next (taken + 1) ds else (significand, taken)

/-- The double nearest to a power of ten. -/
def powerOfTen (n : Nat) : Float :=
  Binary64.nearest false (Nat.pow 10 n) 1

/-- A significand times a power of ten, by one multiplication or division; two divisions where the power is
no double. The result may be off by a unit in the last place. Too large a number has none. -/
def scaled? (significand : Nat) (exponent : Int) : Option Float :=
  let x := Float.ofNat significand
  let down := (-exponent).toNat
  if 0 ≤ exponent then
    if exponent ≤ 308 then
      let y := x * powerOfTen exponent.toNat
      if y.isFinite then some y else none
    else if significand = 0 then some 0 else none
  else if down ≤ 308 then some (x / powerOfTen down)
  else if down ≤ 616 then some (x / powerOfTen 308 / powerOfTen (down - 308))
  else some 0

/-- The double that a numeral is read as: its first digits, as many as fit 64 bits, scaled by one power of
ten. -/
def numeralToFloat? (n : Numeral) : Option Float := do
  let (first, takenWhole) := takeDigits 0 0 n.whole
  let (significand, takenFraction) := takeDigits first 0 n.fraction
  let x ← scaled? significand (n.exponent + (n.whole.length - takenWhole : Nat) - takenFraction)
  return if n.negative then -x else x

/-- A double, also from an integer. -/
def toFloat? : Json → Option Float
  | number spelling => (Numeral.read? spelling.toList).bind numeralToFloat?
  | _ => none

/-- How strictly a record is read: whether other members may stand beside its fields, and whether its last
fields may be missing where it is written as an array. -/
structure RecordRules where
  closed : Bool := false
  partialArray : Bool := false

/-- The values of the fields of a record, in the order of the names, `none` for a missing one. An object has
each field at most once; an array has the values in order. -/
def fields? (rules : RecordRules) (names : List String) : Json → Option (List (Option Json))
  | object members =>
    let keys := members.map Prod.fst
    if names.any (fun name => decide (1 < keys.count name)) then none
    else if rules.closed && !keys.all names.contains then none
    else some (names.map fun name => members.lookup name)
  | array items =>
    let missing := names.length - items.length
    if names.length < items.length ∨ (missing ≠ 0 ∧ !rules.partialArray) then none
    else some (items.map some ++ List.replicate missing none)
  | _ => none

/-- A field that has to be there. -/
def required {α : Type} (decode : Json → Option α) (field : Option Json) : Option α :=
  field.bind decode

/-- A field that is none if it is missing. -/
def optional {α : Type} (decode : Json → Option α) : Option Json → Option (Option α)
  | none => some none
  | some value => value.toOption? decode

/-- A field with a value of its own if it is missing. -/
def withDefault {α : Type} (default : α) (decode : Json → Option α) : Option Json → Option α
  | none => some default
  | some value => decode value

/-- The name of a variant and what it holds: an object of one member, or the bare name. -/
def variant? : Json → Option (String × Option Json)
  | object [(name, content)] => some (name, some content)
  | string name => some (name, none)
  | _ => none

/-- The name of a variant that holds nothing. -/
def bareVariant? (value : Json) : Option String :=
  match value.variant? with
  | some (name, none) => some name
  | some (name, some null) => some name
  | _ => none

end TurtleChain.Json
