import TurtleChain.Json.Decode
import TurtleChain.Json.Writer
import TurtleChain.Walk.Ant

/-! Colours, categories and ants as JSON records. -/

namespace TurtleChain

namespace Color

def toJson (tag : Color) : Json :=
  .string tag.name

def ofJson? (value : Json) : Option Color :=
  value.bareVariant?.bind ofName?

end Color

namespace ActionKind

def toJson (kind : ActionKind) : Json :=
  .string kind.name

def ofJson? (value : Json) : Option ActionKind :=
  value.bareVariant?.bind ofName?

end ActionKind

namespace Cell

def toJson (cell : Cell) : Json :=
  .array [.ofInt cell.x, .ofInt cell.y]

def ofJson? : Json → Option Cell
  | .array [x, y] => return ⟨← x.toInt64?, ← y.toInt64?⟩
  | _ => none

end Cell

namespace Ant

def toJson (ant : Ant) : Json :=
  .object [("x", .ofInt ant.position.x), ("y", .ofInt ant.position.y), ("angle", .ofFloat ant.angle),
    ("scale", .ofFloat ant.scale), ("path", .array (ant.path.map Cell.toJson)),
    ("stroke", ant.stroke.toJson), ("alive", .bool ant.alive), ("current_life", .ofNat ant.life),
    ("max_life", .ofOption .ofNat ant.maxLife)]

def fieldNames : List String :=
  ["x", "y", "angle", "scale", "path", "stroke", "alive", "current_life", "max_life"]

def ofJson? (value : Json) : Option Ant := do
  match ← value.fields? {} fieldNames with
  | [x, y, angle, scale, path, stroke, alive, life, maxLife] =>
    return {
      position := ⟨← Json.required Json.toInt64? x, ← Json.required Json.toInt64? y⟩
      angle := ← Json.required Json.toFloat? angle
      scale := ← Json.required Json.toFloat? scale
      trail := (← Json.required (Json.toList? Cell.ofJson?) path).reverse
      stroke := ← Json.required Color.ofJson? stroke
      alive := ← Json.required Json.toBool? alive
      life := ← Json.required (Json.toNat? UInt64.size) life
      maxLife := ← Json.optional (Json.toNat? UInt64.size) maxLife }
  | _ => none

end Ant

end TurtleChain
