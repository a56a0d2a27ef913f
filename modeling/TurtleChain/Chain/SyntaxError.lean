import TurtleChain.Text.Quoted

/-! What can be wrong with a chain, where, and the words for it. -/

namespace TurtleChain

/-- Why a chain could not be read. `invalidNumber` and `tokensRanOut` are left for token lists that no text has:
with a number that is spelled wrongly, or without an end of input. -/
inductive SyntaxError.Cause where
  | unexpectedCharacter (c : Char)
  | zeroAfterMinus
  | noDigitAfterMinus
  | leadingZero
  | noDigitAfterPoint
  | openString
  | badStringCharacter (c : Char)
  | noPipe
  | noName
  | noArgument
  | noField
  | integerOutOfRange (text : String)
  | invalidNumber (text : String)
  | tokensRanOut
  deriving DecidableEq

namespace SyntaxError.Cause

def message : Cause → String
  | unexpectedCharacter c => "Unexpected character: " ++ c.toString
  | zeroAfterMinus => "Expected non-zero digit after '-'"
  | noDigitAfterMinus => "Expected digit after '-'"
  | leadingZero => "Leading zeros are not allowed"
  | noDigitAfterPoint => "Expected digit after '.'"
  | openString => "Unterminated string literal"
  | badStringCharacter c => "Unexpected character in string literal: " ++ c.toString
  | noPipe => "Expected '|' or end of input"
  | noName => "Expected operation name"
  | noArgument => "Expected argument after ':'"
  | noField => "Expected field name after '.'"
  | integerOutOfRange text => "Integer literal out of range: " ++ text
  | invalidNumber text => "Invalid number " ++ text ++ ": invalid float literal"
  | tokensRanOut => "Expected end of input"

end SyntaxError.Cause

/-- A cause at a character offset, with the character that stands there, `none` at the end of input. -/
structure SyntaxError where
  offset : Nat
  found : Option Char
  cause : SyntaxError.Cause
  deriving DecidableEq

namespace SyntaxError

/-- A syntax error with its cause put into words. -/
structure Report where
  offset : Nat
  found : Option Char
  message : String
  deriving DecidableEq

def report (e : SyntaxError) : Report :=
  ⟨e.offset, e.found, e.cause.message⟩

def Report.render (r : Report) : String :=
  let found := match r.found with
    | some c => Text.quotedChar c
    | none => "end of input"
  "Parse error at character " ++ toString r.offset ++ " (" ++ found ++ "): " ++ r.message

def message (e : SyntaxError) : String :=
  e.report.render

end SyntaxError

end TurtleChain
