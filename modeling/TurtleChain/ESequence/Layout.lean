import TurtleChain.Chain.Parser
import TurtleChain.Curve.CurveError
import TurtleChain.ESequence.Jitter
import TurtleChain.ESequence.Shape

/-! The chain of an E-sequence. Blocks are laid out one after another; the direction of the turns is all
that one block hands to the next. Even blocks run along the major length and odd ones across it; the jitter
stretches the long side of the even blocks and the short side of the odd ones. -/

namespace TurtleChain.ESequenceShape

/-- The long and the short side of a block. -/
def sides (p : ESequenceShape) (block : Nat) (multiplier : Float) : Float × Float :=
  if block % 2 = 0 then (multiplier * p.majorLength, p.minorLength)
  else (Float.ofNat p.bends.toNat * 2 * p.minorLength, multiplier * p.minorLength)

/-- A turn by the start angle, as its number in the chain. -/
def turnText (p : ESequenceShape) (dir : TurnSign) : String :=
  numberText (dir.toFloat * p.startAngle)

/-- Half a bend: both sides, a turn behind each. -/
def halfBend (long short turn : String) : String :=
  "C:c1|D:" ++ long ++ "|T:" ++ turn ++ "|D:" ++ short ++ "|T:" ++ turn ++ "|"

/-- The bends of a block that is entered in a direction; a bend leaves the direction as it was. -/
def bendsText (p : ESequenceShape) (dir : TurnSign) (long short : String) : List String :=
  let bend := [halfBend long short (p.turnText dir.flipped), halfBend long short (p.turnText dir)]
  (List.replicate p.bends.toNat bend).flatten

/-- One long side more, and a step aside. -/
def blockEnd (p : ESequenceShape) (dir : TurnSign) (long : String) : String :=
  "C:c2|D:" ++ long ++ "|D2:" ++ numberText p.minorLength ++ "|T:" ++ p.turnText dir ++ "|"

/-- The turn into the next row, in the new direction. -/
def rowEnd (p : ESequenceShape) (dir : TurnSign) (short : String) : String :=
  let turn := p.turnText dir
  "C:c4|T:" ++ turn ++ "|T:" ++ turn ++ "|D2:" ++ short ++ "|T:" ++ turn ++ "|"

/-- A row ends with this block. -/
def endsRow (p : ESequenceShape) (block : Nat) : Bool :=
  decide (0 < block) && block % p.blocksPerRow.toNat == p.blocksPerRow.toNat - 1

/-- The pieces of one block, and the direction behind it. -/
def blockText (p : ESequenceShape) (block : Nat) (multiplier : Float) (dir : TurnSign) :
    Except InvalidParameter (List String × TurnSign) := do
  let (long, short) := p.sides block multiplier
  Parameter.majorLength.checkLength long
  Parameter.minorLength.checkLength short
  let longText := numberText long
  let shortText := numberText short
  let bends := p.bendsText dir longText shortText
  let tail := if block % 2 = 0 then [p.blockEnd dir longText] else []
  if p.endsRow block then
    return (bends ++ tail ++ [p.rowEnd dir.flipped shortText], dir.flipped)
  else
    return (bends ++ tail, dir)

/-- The pieces of the given number of blocks from `block` on, the first block's direction being `dir`.
`done` holds the pieces so far, those of the last block first. -/
def blocksText (p : ESequenceShape) (jitter : Jitter) (block : Nat) (dir : TurnSign)
    (done : List (List String)) : Nat → Except InvalidParameter (List String)
  | 0 => .ok done.reverse.flatten
  | left + 1 => do
    let (pieces, dir) ← p.blockText block (jitter block) dir
    p.blocksText jitter (block + 1) dir (pieces :: done) left

/-- The chain of an E-sequence, a pipe behind its last operation. -/
def chainText (p : ESequenceShape) (jitter : Jitter) : Except InvalidParameter String := do
  p.validate
  let blocks ← p.blockCount
  let pieces ← p.blocksText jitter 0 p.dir [] blocks
  return String.join pieces

/-- The operations of an E-sequence. -/
def sequence (p : ESequenceShape) (jitter : Jitter) : Except CurveError Sequence :=
  match p.chainText jitter with
  | .error e => .error (.invalid e)
  | .ok text => (parse text).mapError (.unreadable .generic "E")

end TurtleChain.ESequenceShape
