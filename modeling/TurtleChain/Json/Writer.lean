import TurtleChain.Json.Value
import TurtleChain.Number.Style

/-! Writing JSON, on one line or indented by two blanks a level. -/

namespace TurtleChain

/-- Doubles are positional while the exponent of their leading digit is from -5 to 15, and have a point
there even if they are whole. -/
def jsonStyle : NumeralStyle where
  tie := .toEven
  plainWindow := some (-5, 15)
  wholeEnding := ".0"
  nan := "null"
  infinity := "null"

namespace Json

/-- A double; the values that are no number have no spelling and become null. -/
def ofFloat (x : Float) : Json :=
  if x.isFinite then number (jsonStyle.render x) else null

def hexDigits4 (n : Nat) : List Char :=
  let digits := Nat.toDigits 16 n
  List.replicate (4 - digits.length) '0' ++ digits

/-- A character between quotes. -/
def escape (c : Char) : List Char :=
  if c = '"' ∨ c = '\\' then ['\\', c]
  else if c = '\x08' then ['\\', 'b']
  else if c = '\x0c' then ['\\', 'f']
  else if c = '\n' then ['\\', 'n']
  else if c = '\r' then ['\\', 'r']
  else if c = '\t' then ['\\', 't']
  else if c.toNat < 0x20 then '\\' :: 'u' :: hexDigits4 c.toNat
  else [c]

def quoted (s : String) : String :=
  String.ofList ('"' :: s.toList.flatMap escape ++ ['"'])

mutual

/-- The value on one line with no blanks. -/
def compact : Json → String
  | null => "null"
  | bool value => if value then "true" else "false"
  | number spelling => spelling
  | string content => quoted content
  | broken => "\"\""
  | array items => "[" ++ ",".intercalate (compactItems items) ++ "]"
  | object members => "\x7b" ++ ",".intercalate (compactMembers members) ++ "\x7d"

def compactItems : List Json → List String
  | [] => []
  | item :: items => compact item :: compactItems items

def compactMembers : List (String × Json) → List String
  | [] => []
  | (key, value) :: members => (quoted key ++ ":" ++ compact value) :: compactMembers members

end

def newline (depth : Nat) : String :=
  String.ofList ('\n' :: List.replicate (2 * depth) ' ')

/-- Items on lines of their own between brackets; nothing stands between the brackets of no items. -/
def block (opening closing : String) (depth : Nat) (items : List String) : String :=
  if items.isEmpty then opening ++ closing
  else opening ++ newline (depth + 1) ++ ("," ++ newline (depth + 1)).intercalate items ++
    newline depth ++ closing

mutual

/-- The value with each item on a line of its own, at a depth of nesting. -/
def prettyAt (depth : Nat) : Json → String
  | null => "null"
  | bool value => if value then "true" else "false"
  | number spelling => spelling
  | string content => quoted content
  | broken => "\"\""
  | array items => block "[" "]" depth (prettyItems (depth + 1) items)
  | object members => block "\x7b" "\x7d" depth (prettyMembers (depth + 1) members)

def prettyItems (depth : Nat) : List Json → List String
  | [] => []
  | item :: items => prettyAt depth item :: prettyItems depth items

def prettyMembers (depth : Nat) : List (String × Json) → List String
  | [] => []
  | (key, value) :: members =>
    (quoted key ++ ": " ++ prettyAt depth value) :: prettyMembers depth members

end

def pretty (value : Json) : String :=
  prettyAt 0 value

end Json

end TurtleChain
