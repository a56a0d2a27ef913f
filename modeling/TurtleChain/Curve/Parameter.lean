import TurtleChain.Number.Style

/-! The numbers that a curve is built from, and what can be wrong with one of them. -/

namespace TurtleChain

inductive Parameter where
  | sideLength
  | bends
  | blocksPerRow
  | rows
  | majorLength
  | minorLength
  | startAngle
  deriving DecidableEq

namespace Parameter

def name : Parameter → String
  | sideLength => "side_length"
  | bends => "bends"
  | blocksPerRow => "blocks_per_row"
  | rows => "rows"
  | majorLength => "major_length"
  | minorLength => "minor_length"
  | startAngle => "start_angle"

inductive Fault where
  | zero
  | notEven (value : Nat)
  | notPositive (value : Float)
  | tooLong (value : Float)
  | notFinite
  | angleTooSmall (value : Float)
  | angleTooLarge
  | blockOverflow (rowCount perRow : Nat)
  | operationOverflow (bendCount blockCount : Nat)

/-- The greatest length and angle, `10 ^ 15`. Whole numbers up to it are written as integers, which then
are in range. -/
def limit : Float := 1e15

def Fault.reason : Fault → String
  | zero => "must be > 0"
  | notEven value => "must be even and > 0, got " ++ toString value
  | notPositive value => "must be finite and > 0, got " ++ plainText value
  | tooLong value => "must be at most " ++ plainText limit ++ ", got " ++ plainText value
  | notFinite => "must be finite"
  | angleTooSmall value => "must be 0 or at least 1 in magnitude, got " ++ plainText value
  | angleTooLarge => "must be at most " ++ plainText limit ++ " in magnitude"
  | blockOverflow rowCount perRow =>
    toString rowCount ++ " rows of " ++ toString perRow ++ " blocks overflow the block count"
  | operationOverflow bendCount blockCount =>
    toString bendCount ++ " bends over " ++ toString blockCount ++
      " blocks overflow the operation count"

end Parameter

structure InvalidParameter where
  parameter : Parameter
  fault : Parameter.Fault

namespace InvalidParameter

def message (e : InvalidParameter) : String :=
  "Invalid value for " ++ e.parameter.name ++ ": " ++ e.fault.reason

end InvalidParameter

namespace Parameter

/-- A length is a positive number up to the limit. -/
def checkLength (parameter : Parameter) (value : Float) : Except InvalidParameter Unit :=
  if !value.isFinite || value <= 0 then .error ⟨parameter, .notPositive value⟩
  else if value > limit then .error ⟨parameter, .tooLong value⟩
  else .ok ()

end Parameter

end TurtleChain
