import TurtleChain.Json.Value
import TurtleChain.Number.Numeral

/-! Reading JSON. Every reader takes the text that is left and answers with what it read and the text
behind it. Nesting is bounded by the length of the text, since every level opens with a bracket. -/

namespace TurtleChain.Json

def skipBlanks (cs : List Char) : List Char :=
  cs.dropWhile [' ', '\n', '\t', '\r'].contains

/-- The value of a hexadecimal digit. -/
def hexValue? (c : Char) : Option Nat :=
  if c.isDigit then some (c.toNat - 48)
  else if 'a' ≤ c ∧ c ≤ 'f' then some (c.toNat - 87)
  else if 'A' ≤ c ∧ c ≤ 'F' then some (c.toNat - 55)
  else none

/-- The number that hexadecimal digits spell. -/
def hexNumber? (cs : List Char) : Option Nat :=
  cs.foldlM (fun n c => (hexValue? c).map (16 * n + ·)) 0

/-- The character that an escape by one letter stands for. -/
def unescape? : Char → Option Char
  | '"' => some '"'
  | '\\' => some '\\'
  | '/' => some '/'
  | 'b' => some '\x08'
  | 'f' => some '\x0c'
  | 'n' => some '\n'
  | 'r' => some '\r'
  | 't' => some '\t'
  | _ => none

/-- The code units of a string up to its closing quote: code points, and halves of surrogate pairs. -/
def units : List Char → Option (List Nat × List Char)
  | [] => none
  | '"' :: rest => some ([], rest)
  | '\\' :: 'u' :: a :: b :: c :: d :: rest => do
    let unit ← hexNumber? [a, b, c, d]
    let (more, rest) ← units rest
    return (unit :: more, rest)
  | '\\' :: c :: rest => do
    let unit ← unescape? c
    let (more, rest) ← units rest
    return (unit.toNat :: more, rest)
  | c :: rest =>
    if c.toNat < 0x20 then none
    else do
      let (more, rest) ← units rest
      return (c.toNat :: more, rest)

def isLeading (unit : Nat) : Bool := decide (0xD800 ≤ unit) && decide (unit < 0xDC00)

def isTrailing (unit : Nat) : Bool := decide (0xDC00 ≤ unit) && decide (unit < 0xE000)

/-- The characters of code units, if every half of a pair has the other half behind it. -/
def joinUnits? : List Nat → Option (List Char)
  | [] => some []
  | [unit] => if isLeading unit || isTrailing unit then none else some [Char.ofNat unit]
  | first :: second :: rest =>
    if isLeading first then
      if isTrailing second then
        let point := 0x10000 + 0x400 * (first - 0xD800) + (second - 0xDC00)
        (joinUnits? rest).map (Char.ofNat point :: ·)
      else none
    else if isTrailing first then none
    else (joinUnits? (second :: rest)).map (Char.ofNat first :: ·)

/-- A string from behind its opening quote; none if half of a pair stands alone in it. -/
def readString (cs : List Char) : Option (Option String × List Char) :=
  (units cs).map fun (us, rest) => ((joinUnits? us).map String.ofList, rest)

def ofString : Option String → Json
  | some content => string content
  | none => broken

def ofMembers (members : List (Option String × Json)) : Json :=
  match members.mapM fun (key, value) => key.map (·, value) with
  | some members => object members
  | none => broken

/-- Digits, at least one. -/
def digits1 (cs : List Char) : Option (List Char × List Char) :=
  let (ds, rest) := Numeral.splitDigits cs
  if ds.isEmpty then none else some (ds, rest)

/-- A whole part without zeros in front of it. -/
def wholePart : List Char → Option (List Char × List Char)
  | '0' :: rest => if (Numeral.splitDigits rest).1.isEmpty then some (['0'], rest) else none
  | cs => digits1 cs

def fractionPart : List Char → Option (List Char × List Char)
  | '.' :: rest => (digits1 rest).map fun (ds, rest) => ('.' :: ds, rest)
  | cs => some ([], cs)

def exponentPart : List Char → Option (List Char × List Char)
  | c :: rest =>
    if c = 'e' ∨ c = 'E' then
      let (sign, rest) := match rest with
        | '+' :: rest => (['+'], rest)
        | '-' :: rest => (['-'], rest)
        | rest => ([], rest)
      (digits1 rest).map fun (ds, rest) => (c :: sign ++ ds, rest)
    else some ([], c :: rest)
  | [] => some ([], [])

/-- A number, as it is spelled. -/
def readNumber (cs : List Char) : Option (Json × List Char) := do
  let (sign, rest) := match cs with
    | '-' :: rest => (['-'], rest)
    | rest => ([], rest)
  let (whole, rest) ← wholePart rest
  let (fraction, rest) ← fractionPart rest
  let (exponent, rest) ← exponentPart rest
  return (number (String.ofList (sign ++ whole ++ fraction ++ exponent)), rest)

/-- Items up to the closing bracket, commas between them. -/
def readItems {α : Type} (item : List Char → Option (α × List Char)) (closing : Char) :
    Nat → List Char → Option (List α × List Char)
  | 0, _ => none
  | fuel + 1, cs => do
    let (first, rest) ← item cs
    match skipBlanks rest with
    | ',' :: rest =>
      let (more, rest) ← readItems item closing fuel rest
      return (first :: more, rest)
    | c :: rest => if c = closing then return ([first], rest) else none
    | [] => none

/-- Any number of items, from behind the opening bracket. -/
def readBlock {α : Type} (item : List Char → Option (α × List Char)) (closing : Char) (fuel : Nat)
    (cs : List Char) : Option (List α × List Char) :=
  match skipBlanks cs with
  | [] => none
  | c :: rest => if c = closing then some ([], rest) else readItems item closing fuel cs

/-- A key, a colon and a value. -/
def readMember (value : List Char → Option (Json × List Char)) (cs : List Char) :
    Option ((Option String × Json) × List Char) := do
  match skipBlanks cs with
  | '"' :: rest =>
    let (key, rest) ← readString rest
    match skipBlanks rest with
    | ':' :: rest =>
      let (v, rest) ← value rest
      return ((key, v), rest)
    | _ => none
  | _ => none

def readWord (word : String) (value : Json) (cs : List Char) : Option (Json × List Char) :=
  if word.toList.isPrefixOf cs then some (value, cs.drop word.toList.length) else none

def readValue : Nat → List Char → Option (Json × List Char)
  | 0, _ => none
  | fuel + 1, cs =>
    match skipBlanks cs with
    | '[' :: rest =>
      (readBlock (readValue fuel) ']' fuel rest).map fun (items, rest) => (array items, rest)
    | '\x7b' :: rest =>
      (readBlock (readMember (readValue fuel)) '\x7d' fuel rest).map fun (members, rest) =>
        (ofMembers members, rest)
    | '"' :: rest => (readString rest).map fun (content, rest) => (ofString content, rest)
    | 'n' :: rest => readWord "null" null ('n' :: rest)
    | 't' :: rest => readWord "true" (bool true) ('t' :: rest)
    | 'f' :: rest => readWord "false" (bool false) ('f' :: rest)
    | rest => readNumber rest

/-- The value that a whole text spells. -/
def read? (text : String) : Option Json := do
  let cs := text.toList
  let (value, rest) ← readValue (cs.length + 1) cs
  if (skipBlanks rest).isEmpty then some value else none

end TurtleChain.Json
