import TurtleChain.Record.Curve
import TurtleChain.Toml.Decode
import TurtleChain.Toml.Reader

/-! Configurations as TOML documents: `Config.ofDocument` reads one, in which every value may be missing, and
`Config.document` writes one with every value that is set. -/

namespace TurtleChain

/-- Doubles in a document are positional and always have a point. -/
def tomlStyle : NumeralStyle where
  tie := .up
  plainWindow := none
  wholeEnding := ".0"
  nan := "nan"
  infinity := "inf"

private def documentLine (key value : String) : String :=
  key ++ " = " ++ value ++ "\n"

namespace TurnSign

def ofToml? (value : Toml) : Option TurnSign :=
  (value.toInt? (-128) 127).bind ofInt?

end TurnSign

namespace ESequenceShape

private def count? (value : Toml) : Option UInt32 :=
  (value.toNat? UInt32.size).map UInt32.ofNat

def ofToml? (value : Toml) : Option ESequenceShape := do
  let base : ESequenceShape := {}
  match ← value.fields? fieldNames with
  | [bends, blocksPerRow, rows, majorLength, minorLength, dir, startAngle] =>
    return {
      bends := ← Toml.withDefault base.bends count? bends
      blocksPerRow := ← Toml.withDefault base.blocksPerRow count? blocksPerRow
      rows := ← Toml.withDefault base.rows count? rows
      majorLength := ← Toml.withDefault base.majorLength Toml.toFloat? majorLength
      minorLength := ← Toml.withDefault base.minorLength Toml.toFloat? minorLength
      dir := ← Toml.withDefault base.dir TurnSign.ofToml? dir
      startAngle := ← Toml.withDefault base.startAngle Toml.toFloat? startAngle }
  | _ => none

def document (p : ESequenceShape) : String :=
  documentLine "bends" (toString p.bends.toNat) ++
  documentLine "blocks_per_row" (toString p.blocksPerRow.toNat) ++
  documentLine "rows" (toString p.rows.toNat) ++
  documentLine "major_length" (tomlStyle.render p.majorLength) ++
  documentLine "minor_length" (tomlStyle.render p.minorLength) ++
  documentLine "dir" (toString p.dir.toInt) ++
  documentLine "start_angle" (tomlStyle.render p.startAngle)

end ESequenceShape

namespace Config

def ofToml? (value : Toml) : Option Config := do
  let base : Config := {}
  match ← value.fields? fieldNames with
  | [family, sideLength, iterations, maxOperations, eSequence, jitterSeed] =>
    return {
      family := ← Toml.withDefault base.family (fun v => v.bareVariant?.bind Family.ofName?) family
      sideLength := ← Toml.withDefault base.sideLength Toml.toFloat? sideLength
      iterations := ← Toml.optional (Toml.toNat? UInt64.size) iterations
      maxOperations := ← Toml.withDefault base.maxOperations (Toml.toNat? UInt64.size) maxOperations
      eSequence := ← Toml.withDefault base.eSequence ESequenceShape.ofToml? eSequence
      jitterSeed := (← Toml.optional (Toml.toNat? UInt64.size) jitterSeed).map UInt64.ofNat }
  | _ => none

def ofDocument (text : String) : Except ConfigError Config :=
  match (Toml.read? text).bind fun entries => ofToml? (.table .opened entries) with
  | some config => .ok config
  | none => .error .malformed

private def documentLineOf (key : String) : Option Nat → String
  | none => ""
  | some n => documentLine key (toString n)

def document (config : Config) : String :=
  documentLine "family" ("\"" ++ config.family.name ++ "\"") ++
  documentLine "side_length" (tomlStyle.render config.sideLength) ++
  documentLineOf "iterations" config.iterations ++
  documentLine "max_operations" (toString config.maxOperations) ++
  documentLineOf "jitter_seed" (config.jitterSeed.map UInt64.toNat) ++
  "\n[e_sequence]\n" ++ config.eSequence.document

end Config

end TurtleChain
