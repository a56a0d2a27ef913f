import TurtleChain.Chain.SyntaxError

/-! The tokens of a chain and the character classes they are made of. -/

namespace TurtleChain

/-- Letters are the ASCII letters and five symbols. -/
def isNameStart (c : Char) : Bool :=
  c.isAlpha || ['$', '£', '&', '^', '*'].contains c

def isNameChar (c : Char) : Bool :=
  isNameStart c || c.isDigit

/-- What may stand between the quotes of a string. -/
def isTextChar (c : Char) : Bool :=
  isNameChar c || ['.', '(', ')'].contains c || Text.isBlank c

inductive TokenKind where
  | pipe
  | colon
  | dot
  | ident (name : String)
  /-- The number as it is spelled. -/
  | number (text : String)
  /-- The characters between the quotes. -/
  | string (content : String)
  | eof
  | error (error : SyntaxError)
  deriving DecidableEq

namespace TokenKind

def render : TokenKind → String
  | pipe => "'|'"
  | colon => "':'"
  | dot => "'.'"
  | ident name => "identifier " ++ name
  | number text => "number " ++ text
  | string content => "string \"" ++ content ++ "\""
  | eof => "end of input"
  | error e => "error (" ++ e.cause.message ++ ")"

/-- The first character of the token in the text. -/
def firstChar? : TokenKind → Option Char
  | pipe => some '|'
  | colon => some ':'
  | dot => some '.'
  | string _ => some '"'
  | ident text | number text => text.toList.head?
  | eof | error _ => none

end TokenKind

/-- A token and the character offsets it spans, `stop` excluded. -/
structure Token where
  kind : TokenKind
  start : Nat
  stop : Nat
  deriving DecidableEq

namespace Token

/-- The error of a token that stands where another was needed. A token that is wrong in itself reports
its own error. -/
def errorAt (t : Token) (cause : SyntaxError.Cause) : SyntaxError :=
  match t.kind with
  | .error e => e
  | kind => ⟨t.start, kind.firstChar?, cause⟩

end Token

end TurtleChain
