import TurtleChain.Chain.Parser

/-! Sequences as text: the canonical chain, and a listing of one operation a line. -/

namespace TurtleChain.Sequence

/-- The canonical chain of a sequence, with no spaces and, if asked for, a pipe behind the last operation. -/
def toChain (trailingPipe : Bool) (ops : Sequence) : String :=
  if trailingPipe ∧ ops ≠ [] then render ops ++ "|" else render ops

/-- The number in decimal, blanks in front up to the width. -/
def padLeft (width : Nat) (n : Nat) : String :=
  let digits := Nat.toDigits 10 n
  String.ofList (List.replicate (width - digits.length) ' ' ++ digits)

def listingLine (width index : Nat) (op : Operation) : String :=
  let argument := match op.arg with
    | none => ""
    | some arg => "  " ++ arg.render ++ " (" ++ arg.kind ++ ")"
  padLeft width index ++ "  " ++ op.name ++ argument ++ "\n"

/-- One line for each operation: its index, as wide as the last one, its name, and its argument with the
kind of it. -/
def listing (ops : Sequence) : String :=
  let width := (Nat.toDigits 10 (ops.length - 1)).length
  String.join (ops.mapIdx (listingLine width))

end TurtleChain.Sequence

namespace TurtleChain

/-- The canonical text of a chain. -/
def canonical (source : String) : Except SyntaxError String :=
  (parse source).map (Sequence.toChain false)

end TurtleChain
