import TurtleChain.Chain.Token

/-! Cutting a chain into tokens. A scanner looks at the text from one position on and answers with the
kind of the token there and the number of characters it takes; only `Lexer.tokenize` moves forward. Spaces
separate tokens; tabs and line ends are errors like any other stray character. An error takes the character
it complains about, so that scanning goes on behind it. -/

namespace TurtleChain

/-- A lexer: the text that is left, and the offset it starts at. -/
structure Lexer where
  position : Nat
  rest : List Char

namespace Lexer

def ofString (source : String) : Lexer :=
  ⟨0, source.toList⟩

/-- A token kind and the number of characters it takes. -/
abbrev Scan := TokenKind × Nat

/-- An error behind `taken` characters, at the first character of `rest`, which it takes as well. -/
def failAt (start taken : Nat) (rest : List Char) (cause : SyntaxError.Cause) : Scan :=
  (.error ⟨start + taken, rest.head?, cause⟩, taken + (rest.take 1).length)

def scanIdent (cs : List Char) : Scan :=
  let name := cs.takeWhile isNameChar
  (.ident (String.ofList name), name.length)

/-- A number whose whole part is `whole`, followed by `rest`: a point must have a digit behind it. -/
def scanFraction (start : Nat) (whole rest : List Char) : Scan :=
  match rest with
  | '.' :: tail =>
    let digits := tail.takeWhile Char.isDigit
    if digits = [] then failAt start (whole.length + 1) tail .noDigitAfterPoint
    else (.number (String.ofList (whole ++ '.' :: digits)), whole.length + 1 + digits.length)
  | _ => (.number (String.ofList whole), whole.length)

/-- A number whose sign is `sign`, followed by `rest`: a zero in front stands alone. -/
def scanWhole (start : Nat) (sign rest : List Char) : Scan :=
  match rest with
  | '0' :: tail =>
    if (tail.takeWhile Char.isDigit) = [] then scanFraction start (sign ++ ['0']) tail
    else failAt start (sign.length + 1) tail .leadingZero
  | _ => scanFraction start (sign ++ rest.takeWhile Char.isDigit) (rest.dropWhile Char.isDigit)

/-- A number. Behind a minus sign stands a digit other than zero. -/
def scanNumber (start : Nat) (cs : List Char) : Scan :=
  match cs with
  | '-' :: rest =>
    match rest with
    | '0' :: _ => failAt start 1 rest .zeroAfterMinus
    | _ =>
      if (rest.takeWhile Char.isDigit) = [] then failAt start 1 rest .noDigitAfterMinus
      else scanWhole start ['-'] rest
  | _ => scanWhole start [] cs

/-- A string, from behind its opening quote. -/
def scanString (start : Nat) (cs : List Char) : Scan :=
  let content := cs.takeWhile isTextChar
  let rest := cs.dropWhile isTextChar
  match rest with
  | [] => failAt start (content.length + 1) rest .openString
  | c :: _ =>
    if c = '"' then (.string (String.ofList content), content.length + 2)
    else failAt start (content.length + 1) rest (.badStringCharacter c)

/-- The token at the first character of a text that does not start with a space. -/
def scan (start : Nat) (c : Char) (cs : List Char) : Scan :=
  if c = '|' then (.pipe, 1)
  else if c = ':' then (.colon, 1)
  else if c = '.' then (.dot, 1)
  else if c = '"' then scanString start cs
  else if c = '-' ∨ c.isDigit then scanNumber start (c :: cs)
  else if isNameStart c then scanIdent (c :: cs)
  else failAt start 0 (c :: cs) (.unexpectedCharacter c)

/-- The tokens from `position` on, put in front of the reversed `found`, and the lexer that is left when there
are no more. -/
def tokensFrom (position : Nat) (rest : List Char) (found : List Token) : List Token × Lexer :=
  match rest with
  | [] => ((⟨.eof, position, position⟩ :: found).reverse, ⟨position, rest⟩)
  | c :: cs =>
    if c = ' ' then tokensFrom (position + 1) cs found
    else
      let (kind, taken) := scan position c cs
      tokensFrom (position + taken) (cs.drop (taken - 1)) (⟨kind, position, position + taken⟩ :: found)
termination_by rest.length
decreasing_by
  all_goals simp only [List.length_cons, List.length_drop]; omega

/-- All tokens that are left, an end of input last, and the lexer behind them. -/
def tokenize (lexer : Lexer) : List Token × Lexer :=
  tokensFrom lexer.position lexer.rest []

end Lexer

/-- The tokens of a whole chain. -/
def tokens (source : String) : List Token :=
  (Lexer.ofString source).tokenize.1

end TurtleChain
