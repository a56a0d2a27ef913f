import TurtleChain.Chain.Lexer
import TurtleChain.Chain.Operation
import TurtleChain.Number.Numeral
import TurtleChain.Number.Range

/-! Reading tokens as operations. Each reader takes the tokens that are left and answers with what it read
and the tokens behind it, also when it fails; the first of those is then the token it stopped at. -/

namespace TurtleChain

namespace Parser

/-- What was read or why not, and the tokens that are left. -/
abbrev Reading (α : Type) := Except SyntaxError α × List Token

/-- The tokens ended without an end of input. -/
def ranOut : SyntaxError :=
  ⟨0, none, .tokensRanOut⟩

/-- A spelled number as an argument. A point makes it a float, which has no range. -/
def spelled (text : String) (start : Nat) : Except SyntaxError Arg :=
  if text.toList.contains '.' then
    match Numeral.read? text.toList with
    | some n => .ok (.float n.toFloat)
    | none => .error ⟨start, text.toList.head?, .invalidNumber text⟩
  else
    match readInt? text with
    | some n =>
      if fitsInt64 n then .ok (.int (Int64.ofInt n))
      else .error ⟨start, text.toList.head?, .integerOutOfRange text⟩
    | none => .error ⟨start, text.toList.head?, .integerOutOfRange text⟩

/-- The field of a member, which follows the dot that ends at `stop` without a gap. Only a space leaves a
gap between tokens. -/
def field (object : String) (stop : Nat) : List Token → Reading Arg
  | [] => (.error ranOut, [])
  | t :: ts =>
    if t.start ≠ stop then (.error ⟨stop, some ' ', .noField⟩, t :: ts)
    else
      match t.kind with
      | .ident name => (.ok (.member object name), ts)
      | _ => (.error (t.errorAt .noField), t :: ts)

/-- The argument behind a colon. A dot right behind an identifier makes it a member. -/
def argument : List Token → Reading Arg
  | [] => (.error ranOut, [])
  | t :: ts =>
    match t.kind with
    | .number text => (spelled text t.start, ts)
    | .string content => (.ok (.text content), ts)
    | .ident name =>
      match ts with
      | [] => (.error ranOut, [])
      | d :: rest =>
        if d.kind = .dot ∧ d.start = t.stop then field name d.stop rest
        else (.ok (.ident name), ts)
    | _ => (.error (t.errorAt .noArgument), t :: ts)

/-- What follows the name of an operation: nothing, or a colon and an argument. -/
def argument? : List Token → Reading (Option Arg)
  | [] => (.error ranOut, [])
  | t :: ts =>
    if t.kind = .colon then
      match argument ts with
      | (.ok arg, rest) => (.ok (some arg), rest)
      | (.error e, rest) => (.error e, rest)
    else (.ok none, t :: ts)

private theorem field_length (object : String) (stop : Nat) (ts : List Token) :
    (field object stop ts).2.length ≤ ts.length := by
  unfold field
  repeat' split
  all_goals simp

private theorem argument_length (ts : List Token) : (argument ts).2.length ≤ ts.length := by
  unfold argument
  repeat' split
  all_goals simp
  rename_i d rest _
  have := field_length ‹_› d.stop rest
  omega

theorem argument?_length (ts : List Token) : (argument? ts).2.length ≤ ts.length := by
  unfold argument?
  split
  · simp
  · split
    · rename_i t ts _
      have := argument_length ts
      split <;> simp_all <;> omega
    · simp

/-- One operation after another, pipes between them, behind the reversed `found`. A pipe may also stand
behind the last one. -/
def statements (found : List Operation) : List Token → Reading Sequence
  | [] => (.error ranOut, [])
  | t :: ts =>
    match t.kind with
    | .ident name =>
      match _h : argument? ts with
      | (.error e, rest) => (.error e, rest)
      | (.ok _, []) => (.error ranOut, [])
      | (.ok arg, e :: rest) =>
        match e.kind with
        | .eof => (.ok (⟨name, arg⟩ :: found).reverse, e :: rest)
        | .pipe =>
          match rest.head? with
          | none => (.error ranOut, [])
          | some n =>
            if n.kind = .eof then (.ok (⟨name, arg⟩ :: found).reverse, rest)
            else statements (⟨name, arg⟩ :: found) rest
        | _ => (.error (e.errorAt .noPipe), e :: rest)
    | _ => (.error (t.errorAt .noName), t :: ts)
termination_by ts => ts.length
decreasing_by
  have := argument?_length ts
  rw [_h] at this
  simp_all
  omega

/-- A chain: nothing, or operations. -/
def chain : List Token → Reading Sequence
  | [] => (.error ranOut, [])
  | t :: ts => if t.kind = .eof then (.ok [], t :: ts) else statements [] (t :: ts)

end Parser

/-- A parser over a list of tokens; `position` is the number of tokens it is past. -/
structure Parser where
  tokens : List Token
  position : Nat := 0

namespace Parser

/-- Reads a chain and stays at the token behind it, or at the token where it failed. -/
def parse (parser : Parser) : Except SyntaxError Sequence × Parser :=
  let (result, rest) := chain (parser.tokens.drop parser.position)
  (result, { parser with position := parser.tokens.length - rest.length })

end Parser

/-- The operations that a chain denotes. -/
def parse (source : String) : Except SyntaxError Sequence :=
  (Parser.chain (tokens source)).1

end TurtleChain
