import TurtleChain.Json.Reader
import TurtleChain.Number.Numeral
import TurtleChain.Number.Range
import TurtleChain.Toml.Datetime
import TurtleChain.Toml.Value

/-! Numbers, truth values, dates and strings of TOML. -/

namespace TurtleChain.Toml

/-- Digits without the underscores between them. -/
def ungroup? (isDigit : Char → Bool) : List Char → Option (List Char)
  | [] => none
  | [c] => if isDigit c then some [c] else none
  | c :: '_' :: rest => if isDigit c then (ungroup? isDigit rest).map (c :: ·) else none
  | c :: rest => if isDigit c then (ungroup? isDigit rest).map (c :: ·) else none

/-- Decimal digits without a zero in front of others. -/
def wholeDigits? (cs : List Char) : Option (List Char) := do
  let ds ← ungroup? Char.isDigit cs
  if 1 < ds.length ∧ ds.head? = some '0' then none else some ds

/-- The number that digits in a base spell. -/
def inBase? (base : Nat) (cs : List Char) : Option Nat := do
  let value? (c : Char) : Option Nat := (Json.hexValue? c).filter fun v => decide (v < base)
  let ds ← ungroup? (fun c => (value? c).isSome) cs
  ds.foldlM (fun n c => (value? c).map (base * n + ·)) 0

def readInteger? (cs : List Char) : Option Int :=
  match cs with
  | '0' :: 'x' :: rest => (inBase? 16 rest).map Int.ofNat
  | '0' :: 'o' :: rest => (inBase? 8 rest).map Int.ofNat
  | '0' :: 'b' :: rest => (inBase? 2 rest).map Int.ofNat
  | _ => do
    let (negative, rest) := Numeral.splitSign cs
    let ds ← wholeDigits? rest
    return Numeral.applySign negative (Nat.ofDigitChars 10 ds 0)

private def isMark (c : Char) : Bool := c == 'e' || c == 'E'

/-- An exponent behind its mark; zeros may stand in front. -/
private def exponent? (cs : List Char) : Option Int := do
  let (negative, rest) := Numeral.splitSign cs
  let ds ← ungroup? Char.isDigit rest
  return Numeral.applySign negative (Nat.ofDigitChars 10 ds 0)

/-- A number with a fraction, an exponent, or both. -/
def readNumeral? (cs : List Char) : Option Numeral := do
  let (negative, rest) := Numeral.splitSign cs
  let mantissa := rest.takeWhile fun c => !isMark c
  let power := rest.dropWhile fun c => !isMark c
  let whole ← wholeDigits? (mantissa.takeWhile (· != '.'))
  let fraction ← match mantissa.dropWhile (· != '.') with
    | [] => if power.isEmpty then none else some []
    | _ :: digits => ungroup? Char.isDigit digits
  let exponent ← match power with
    | [] => some 0
    | _ :: digits => exponent? digits
  return ⟨negative, whole, fraction, exponent⟩

/-- A double. Digits that are too large are refused, unless they have a minus sign. -/
def readFloat? (cs : List Char) : Option Float :=
  match readNumeral? cs with
  | some n =>
    let x := n.toFloat
    if x.isFinite || n.negative then some x else none
  | none =>
    let (_, word) := Numeral.splitSign cs
    if word = "inf".toList ∨ word = "nan".toList then Numeral.readWord? cs else none

/-- A value without quotes or brackets. -/
def readScalar? (cs : List Char) : Option Toml :=
  if cs = "true".toList then some (bool true)
  else if cs = "false".toList then some (bool false)
  else if Datetime.isDatetime cs then some (datetime (String.ofList cs))
  else
    match readInteger? cs with
    | some n => if fitsInt64 n then some (integer n) else none
    | none => (readFloat? cs).map float

/-- Characters that may stand in comments and in strings of one line. -/
def isLineChar (c : Char) : Bool :=
  c == '\t' || (decide (0x20 ≤ c.toNat) && c.toNat != 0x7F)

/-- The character of a code point in hexadecimal digits. -/
def codePoint? (digits : List Char) : Option Char := do
  let n ← Json.hexNumber? digits
  if n.isValidChar then some (Char.ofNat n) else none

/-- The character that an escape by one letter stands for. -/
def unescape? : Char → Option Char
  | '"' => some '"'
  | '\\' => some '\\'
  | 'b' => some '\x08'
  | 'f' => some '\x0c'
  | 'n' => some '\n'
  | 'r' => some '\r'
  | 't' => some '\t'
  | _ => none

/-- An escape from behind its backslash. -/
def readEscape : List Char → Option (Char × List Char)
  | 'u' :: a :: b :: c :: d :: rest => (codePoint? [a, b, c, d]).map (·, rest)
  | 'U' :: a :: b :: c :: d :: e :: f :: g :: h :: rest =>
    (codePoint? [a, b, c, d, e, f, g, h]).map (·, rest)
  | c :: rest => (unescape? c).map (·, rest)
  | [] => none

/-- The next character is at the end of a line. -/
def atNewline : List Char → Bool
  | '\n' :: _ => true
  | '\r' :: '\n' :: _ => true
  | _ => false

/-- The length of a line end, if the text starts with one. -/
def newlineLength (cs : List Char) : Nat :=
  if !atNewline cs then 0 else if cs.head? = some '\r' then 2 else 1

/-- The text behind blanks and line ends. -/
private def skipLines : List Char → List Char
  | [] => []
  | '\r' :: '\n' :: rest => skipLines rest
  | c :: rest => if [' ', '\t', '\n'].contains c then skipLines rest else c :: rest

/-- A string from behind its opening quotes, `found` being what was read, reversed. Over several lines it
ends at three quotes, of which up to two more stand for themselves, and a backslash at the end of a line
takes all blanks and line ends behind it. -/
private def basicFrom (multiline : Bool) (found : List Char) : Nat → List Char → Option (String × List Char)
  | 0, _ => none
  | fuel + 1, cs =>
    let close (quotes : List Char) (rest : List Char) : Option (String × List Char) :=
      some (String.ofList (quotes ++ found).reverse, rest)
    match cs with
    | [] => none
    | '"' :: rest =>
      if !multiline then close [] rest
      else
        match rest with
        | '"' :: '"' :: '"' :: '"' :: rest => close ['"', '"'] rest
        | '"' :: '"' :: '"' :: rest => close ['"'] rest
        | '"' :: '"' :: rest => close [] rest
        | _ => basicFrom multiline ('"' :: found) fuel rest
    | '\\' :: rest =>
      let behind := rest.dropWhile fun c => c == ' ' || c == '\t'
      if multiline && atNewline behind then
        basicFrom multiline found fuel (skipLines behind)
      else do
        let (c, rest) ← readEscape rest
        basicFrom multiline (c :: found) fuel rest
    | c :: rest =>
      if isLineChar c then basicFrom multiline (c :: found) fuel rest
      else if multiline && atNewline (c :: rest) then
        basicFrom multiline ('\n' :: found) fuel ((c :: rest).drop (newlineLength (c :: rest)))
      else none

/-- A string without escapes, from behind its opening quotes. -/
private def literalFrom (multiline : Bool) (found : List Char) :
    Nat → List Char → Option (String × List Char)
  | 0, _ => none
  | fuel + 1, cs =>
    let close (quotes : List Char) (rest : List Char) : Option (String × List Char) :=
      some (String.ofList (quotes ++ found).reverse, rest)
    match cs with
    | [] => none
    | '\'' :: rest =>
      if !multiline then close [] rest
      else
        match rest with
        | '\'' :: '\'' :: '\'' :: '\'' :: rest => close ['\'', '\''] rest
        | '\'' :: '\'' :: '\'' :: rest => close ['\''] rest
        | '\'' :: '\'' :: rest => close [] rest
        | _ => literalFrom multiline ('\'' :: found) fuel rest
    | c :: rest =>
      if isLineChar c then literalFrom multiline (c :: found) fuel rest
      else if multiline && atNewline (c :: rest) then
        literalFrom multiline ('\n' :: found) fuel ((c :: rest).drop (newlineLength (c :: rest)))
      else none

/-- A string of one line, with or without escapes. -/
def readLineString (cs : List Char) : Option (String × List Char) :=
  match cs with
  | '"' :: rest => basicFrom false [] cs.length rest
  | '\'' :: rest => literalFrom false [] cs.length rest
  | _ => none

/-- A string of any kind. A line end right behind three opening quotes is not part of it. -/
def readString (cs : List Char) : Option (String × List Char) :=
  match cs with
  | '"' :: '"' :: '"' :: rest => basicFrom true [] cs.length (rest.drop (newlineLength rest))
  | '\'' :: '\'' :: '\'' :: rest => literalFrom true [] cs.length (rest.drop (newlineLength rest))
  | _ => readLineString cs

end TurtleChain.Toml
