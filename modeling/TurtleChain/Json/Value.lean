/-! Values of the data format JSON. Numbers keep their spelling, because what a number means depends on
whether an integer or a double is read from it. -/

namespace TurtleChain

inductive Json where
  | null
  | bool (value : Bool)
  | number (spelling : String)
  | string (content : String)
  /-- A string, or an object with a key, in which half of a surrogate pair stands alone. It is no text. -/
  | broken
  | array (items : List Json)
  | object (members : List (String × Json))

namespace Json

def ofInt (n : Int) : Json :=
  number (toString n)

def ofNat (n : Nat) : Json :=
  number (toString n)

def ofOption {α : Type} (encode : α → Json) : Option α → Json
  | none => null
  | some value => encode value

end Json

end TurtleChain
