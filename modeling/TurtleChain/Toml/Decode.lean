import TurtleChain.Number.Binary64
import TurtleChain.Toml.Value

/-! Reading numbers, records and variants out of TOML values. -/

namespace TurtleChain.Toml

def toInt? (least greatest : Int) : Toml → Option Int
  | integer n => if least ≤ n ∧ n ≤ greatest then some n else none
  | _ => none

/-- A natural number below the limit. -/
def toNat? (limit : Nat) (value : Toml) : Option Nat :=
  (value.toInt? 0 (limit - 1)).map Int.toNat

/-- A double, also from an integer. -/
def toFloat? : Toml → Option Float
  | integer n => some (Binary64.nearest (decide (n < 0)) n.natAbs 1)
  | float x => some x
  | _ => none

/-- The name of a variant that holds nothing: a string, or the key of one entry with nothing in it. -/
def bareVariant? : Toml → Option String
  | string name => some name
  | table _ [(name, table _ [])] => some name
  | table _ [(name, array [])] => some name
  | _ => none

/-- The values of the fields of a record, in the order of the names, `none` for a missing one. A table has no
other keys. An array has the values in order; what stands behind the last of them is not looked at. -/
def fields? (names : List String) : Toml → Option (List (Option Toml))
  | table _ entries =>
    if entries.all fun entry => names.contains entry.1 then some (names.map fun name => entries.lookup name)
    else none
  | array items =>
    some ((items.take names.length).map some ++ List.replicate (names.length - items.length) none)
  | _ => none

/-- A field that is none if it is missing. -/
def optional {α : Type} (decode : Toml → Option α) : Option Toml → Option (Option α)
  | none => some none
  | some value => (decode value).map some

/-- A field with a value of its own if it is missing. -/
def withDefault {α : Type} (default : α) (decode : Toml → Option α) : Option Toml → Option α
  | none => some default
  | some value => decode value

end TurtleChain.Toml
