import TurtleChain.Curve.Parameter
import TurtleChain.Number.Checked

/-! The shape of an E-sequence: rows of blocks, each block a serpentine of bends. -/

namespace TurtleChain

inductive TurnSign where
  | negative
  | positive
  deriving DecidableEq

namespace TurnSign

def toFloat : TurnSign → Float
  | negative => -1
  | positive => 1

def flipped : TurnSign → TurnSign
  | negative => positive
  | positive => negative

/-- A direction is written as its sign. -/
def toInt : TurnSign → Int
  | negative => -1
  | positive => 1

def ofInt? (n : Int) : Option TurnSign :=
  if n = -1 then some negative else if n = 1 then some positive else none

/-- The complaint about a number that is no direction. -/
def refusal (n : Int) : String :=
  "direction must be -1 or 1, got " ++ toString n

end TurnSign

/-- Lengths are in cells and the angle is in degrees. -/
structure ESequenceShape where
  bends : UInt32 := 4
  blocksPerRow : UInt32 := 4
  rows : UInt32 := 1
  majorLength : Float := 96
  minorLength : Float := 48
  dir : TurnSign := .negative
  startAngle : Float := 90

namespace ESequenceShape

/-- Two rows of two blocks, sized by one side length. -/
def scaled (sideLength : Float) : ESequenceShape where
  bends := 2
  blocksPerRow := 2
  rows := 2
  majorLength := sideLength
  minorLength := sideLength / 2

/-- The number of blocks, which has to fit 32 bits. -/
def blockCount (p : ESequenceShape) : Except InvalidParameter Nat :=
  numberOr ⟨.rows, .blockOverflow p.rows.toNat p.blocksPerRow.toNat⟩
    (checkedMul p.blocksPerRow.toBitVec p.rows.toBitVec)

/-- The number of operations of so many blocks: ten for each bend, four behind every other block, and five at the
end of each row. -/
def operations? (p : ESequenceShape) (blocks : BitVec 64) : Option (BitVec 64) := do
  let bends ← checkedMul (p.bends.toBitVec.setWidth 64) 10
  let perBlock ← checkedAdd bends 2
  let total ← checkedMul perBlock blocks
  checkedAdd total (5 * p.rows.toBitVec.setWidth 64)

/-- The number of operations, which has to fit 64 bits. -/
def operationCount (p : ESequenceShape) : Except InvalidParameter Nat := do
  let blocks ← p.blockCount
  numberOr ⟨.bends, .operationOverflow p.bends.toNat blocks⟩ (p.operations? (.ofNat 64 blocks))

/-- An angle is zero or at least one: turns are written with both signs, and a chain has no number
between minus one and zero. -/
def checkAngle (angle : Float) : Except InvalidParameter Unit :=
  if !angle.isFinite then .error ⟨.startAngle, .notFinite⟩
  else if angle != 0 && angle.abs < 1 then .error ⟨.startAngle, .angleTooSmall angle⟩
  else if angle.abs > Parameter.limit then .error ⟨.startAngle, .angleTooLarge⟩
  else .ok ()

def validate (p : ESequenceShape) : Except InvalidParameter Unit := do
  if p.bends = 0 then .error ⟨.bends, .zero⟩
  else if p.blocksPerRow = 0 ∨ p.blocksPerRow % 2 ≠ 0 then
    .error ⟨.blocksPerRow, .notEven p.blocksPerRow.toNat⟩
  else if p.rows = 0 then .error ⟨.rows, .zero⟩
  else
    Parameter.majorLength.checkLength p.majorLength
    Parameter.minorLength.checkLength p.minorLength
    checkAngle p.startAngle
    let _ ← p.operationCount

end ESequenceShape

end TurtleChain
