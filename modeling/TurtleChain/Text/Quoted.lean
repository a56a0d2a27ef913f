import TurtleChain.Text.Hidden
import TurtleChain.Text.Attached

/-! Characters and strings in quotes, for messages. A character that would not show on the line is
written by its code point in lower-case hexadecimal. -/

namespace TurtleChain.Text

/-- A character between the quotes; only the quote that closes the text is escaped. -/
def escape (quote : Char) (c : Char) : String :=
  if c = '\x00' then "\\0"
  else if c = '\t' then "\\t"
  else if c = '\r' then "\\r"
  else if c = '\n' then "\\n"
  else if c = '\\' ∨ c = quote then String.ofList ['\\', c]
  else if isAttached c || isHidden c then
    "\\u\x7b" ++ String.ofList (Nat.toDigits 16 c.toNat) ++ "\x7d"
  else c.toString

def quotedChar (c : Char) : String :=
  "'" ++ escape '\'' c ++ "'"

def quotedString (s : String) : String :=
  "\"" ++ String.join (s.toList.map (escape '"')) ++ "\""

end TurtleChain.Text
