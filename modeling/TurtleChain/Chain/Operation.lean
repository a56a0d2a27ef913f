import TurtleChain.Number.Style

/-! Operations and sequences of them: what a chain denotes, and the text of each part of one. -/

namespace TurtleChain

/-- The argument of an operation. -/
inductive Arg where
  | int (value : Int64)
  | float (value : Float)
  | ident (name : String)
  | member (object field : String)
  | text (content : String)

structure Operation where
  name : String
  arg : Option Arg := none

abbrev Sequence := List Operation

/-- The text of a number in a chain: positional, and zero without a sign. -/
def numberText (x : Float) : String :=
  if x == 0 then "0" else plainText x

namespace Arg

/-- The text of a float argument: a point always shows that it is one. -/
def floatText (x : Float) : String :=
  let text := numberText x
  if !x.isFinite || text.toList.contains '.' then text else text ++ ".0"

def render : Arg → String
  | int value => toString value.toInt
  | float value => floatText value
  | ident name => name
  | member object field => object ++ "." ++ field
  | text content => "\"" ++ content ++ "\""

def kind : Arg → String
  | int _ => "int"
  | float _ => "float"
  | ident _ => "ident"
  | member .. => "member"
  | text _ => "text"

/-- The number that an argument stands for. -/
def number? : Arg → Option Float
  | int value => some (Float.ofInt value.toInt)
  | float value => some value
  | _ => none

/-- The identifier that an argument is. -/
def ident? : Arg → Option String
  | ident name => some name
  | _ => none

def isNumber (arg : Arg) : Bool :=
  arg.number?.isSome

end Arg

namespace Operation

def render (op : Operation) : String :=
  match op.arg with
  | none => op.name
  | some arg => op.name ++ ":" ++ arg.render

end Operation

namespace Sequence

/-- The operations in order, a pipe between neighbours. -/
def render (ops : Sequence) : String :=
  "|".intercalate (ops.map Operation.render)

/-- The number of operations that have one of the names. -/
def countNamed (names : List String) (ops : Sequence) : Nat :=
  ops.countP fun op => names.contains op.name

end Sequence

end TurtleChain
