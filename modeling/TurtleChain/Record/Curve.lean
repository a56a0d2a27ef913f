import TurtleChain.Config.Basic
import TurtleChain.Json.Decode
import TurtleChain.Json.Writer

/-! Families, E-sequences and configurations as JSON records. -/

namespace TurtleChain

namespace Family

def toJson (family : Family) : Json :=
  .string family.name

def ofJson? (value : Json) : Option Family :=
  value.bareVariant?.bind ofName?

end Family

namespace TurnSign

def toJson (dir : TurnSign) : Json :=
  .ofInt dir.toInt

def ofJson? (value : Json) : Option TurnSign :=
  (value.toInt? (-128) 127).bind ofInt?

end TurnSign

private def word32? (value : Json) : Option UInt32 :=
  (value.toNat? UInt32.size).map UInt32.ofNat

/-- Records with a default for every field. -/
private def defaulted : Json.RecordRules := { closed := true, partialArray := true }

namespace ESequenceShape

def toJson (p : ESequenceShape) : Json :=
  .object [("bends", .ofNat p.bends.toNat), ("blocks_per_row", .ofNat p.blocksPerRow.toNat),
    ("rows", .ofNat p.rows.toNat), ("major_length", .ofFloat p.majorLength),
    ("minor_length", .ofFloat p.minorLength), ("dir", p.dir.toJson), ("start_angle", .ofFloat p.startAngle)]

def fieldNames : List String :=
  ["bends", "blocks_per_row", "rows", "major_length", "minor_length", "dir", "start_angle"]

def ofJson? (value : Json) : Option ESequenceShape := do
  let base : ESequenceShape := {}
  match ← value.fields? defaulted fieldNames with
  | [bends, blocksPerRow, rows, majorLength, minorLength, dir, startAngle] =>
    return {
      bends := ← Json.withDefault base.bends word32? bends
      blocksPerRow := ← Json.withDefault base.blocksPerRow word32? blocksPerRow
      rows := ← Json.withDefault base.rows word32? rows
      majorLength := ← Json.withDefault base.majorLength Json.toFloat? majorLength
      minorLength := ← Json.withDefault base.minorLength Json.toFloat? minorLength
      dir := ← Json.withDefault base.dir TurnSign.ofJson? dir
      startAngle := ← Json.withDefault base.startAngle Json.toFloat? startAngle }
  | _ => none

end ESequenceShape

namespace Config

def toJson (config : Config) : Json :=
  .object [("family", config.family.toJson), ("side_length", .ofFloat config.sideLength),
    ("iterations", .ofOption .ofNat config.iterations), ("max_operations", .ofNat config.maxOperations),
    ("e_sequence", config.eSequence.toJson),
    ("jitter_seed", .ofOption (fun seed => .ofNat seed.toNat) config.jitterSeed)]

def fieldNames : List String :=
  ["family", "side_length", "iterations", "max_operations", "e_sequence", "jitter_seed"]

def ofJson? (value : Json) : Option Config := do
  let base : Config := {}
  match ← value.fields? defaulted fieldNames with
  | [family, sideLength, iterations, maxOperations, eSequence, jitterSeed] =>
    return {
      family := ← Json.withDefault base.family Family.ofJson? family
      sideLength := ← Json.withDefault base.sideLength Json.toFloat? sideLength
      iterations := ← Json.optional (Json.toNat? UInt64.size) iterations
      maxOperations := ← Json.withDefault base.maxOperations (Json.toNat? UInt64.size) maxOperations
      eSequence := ← Json.withDefault base.eSequence ESequenceShape.ofJson? eSequence
      jitterSeed := (← Json.optional (Json.toNat? UInt64.size) jitterSeed).map UInt64.ofNat }
  | _ => none

end Config

end TurtleChain
