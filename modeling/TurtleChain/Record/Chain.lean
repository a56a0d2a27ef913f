import TurtleChain.Chain.SyntaxError
import TurtleChain.Json.Decode
import TurtleChain.Json.Writer
import TurtleChain.Rewriting.Table

/-! Operations, rules and syntax errors as JSON records. -/

namespace TurtleChain

namespace Arg

/-- An argument is an object of one member, whose key is the kind of argument. -/
def toJson : Arg → Json
  | int value => .object [("Int", .ofInt value.toInt)]
  | float value => .object [("Float", .ofFloat value)]
  | ident name => .object [("Ident", .string name)]
  | member object field =>
    .object [("Member", .object [("object", .string object), ("field", .string field)])]
  | text content => .object [("Text", .string content)]

def memberOfJson? (value : Json) : Option Arg := do
  match ← value.fields? {} ["object", "field"] with
  | [object, field] => return member (← Json.required Json.toString? object) (← Json.required Json.toString? field)
  | _ => none

def ofJson? (value : Json) : Option Arg :=
  match value with
  | .object [("Int", content)] =>
    content.toInt64?.map fun n => int (Int64.ofInt n)
  | .object [("Float", content)] => content.toFloat?.map float
  | .object [("Ident", content)] => content.toString?.map ident
  | .object [("Member", content)] => memberOfJson? content
  | .object [("Text", content)] => content.toString?.map text
  | _ => none

end Arg

namespace Operation

def toJson (op : Operation) : Json :=
  .object [("name", .string op.name), ("arg", .ofOption Arg.toJson op.arg)]

def ofJson? (value : Json) : Option Operation := do
  match ← value.fields? {} ["name", "arg"] with
  | [name, arg] => return ⟨← Json.required Json.toString? name, ← Json.optional Arg.ofJson? arg⟩
  | _ => none

end Operation

namespace Sequence

def toJson (ops : Sequence) : Json :=
  .array (ops.map Operation.toJson)

def ofJson? (value : Json) : Option Sequence :=
  value.toList? Operation.ofJson?

end Sequence

namespace Rule

def toJson (rule : Rule) : Json :=
  .object [("name", .string rule.name), ("sequence", Sequence.toJson rule.sequence)]

def ofJson? (value : Json) : Option Rule := do
  match ← value.fields? {} ["name", "sequence"] with
  | [name, sequence] =>
    return ⟨← Json.required Json.toString? name, ← Json.required Sequence.ofJson? sequence⟩
  | _ => none

end Rule

namespace Table

def toJson (table : Table) : Json :=
  .object [("rules", .object (table.rules.entries.map fun (name, ops) => (name, Sequence.toJson ops)))]

/-- The last of several rules for one name counts. -/
private def rulesOfJson? : Json → Option (NameMap Sequence)
  | .object members => members.foldlM (fun (rules : NameMap Sequence) (name, value) =>
      (Sequence.ofJson? value).map (rules.put name)) NameMap.empty
  | _ => none

def ofJson? (value : Json) : Option Table := do
  match ← value.fields? {} ["rules"] with
  | [rules] => return ⟨← Json.required rulesOfJson? rules⟩
  | _ => none

end Table

namespace SyntaxError.Report

def toJson (r : SyntaxError.Report) : Json :=
  .object [("offset", .ofNat r.offset), ("found", .ofOption (fun c => .string c.toString) r.found),
    ("message", .string r.message)]

private def charOfJson? (value : Json) : Option Char := do
  match (← value.toString?).toList with
  | [c] => some c
  | _ => none

def ofJson? (value : Json) : Option SyntaxError.Report := do
  match ← value.fields? {} ["offset", "found", "message"] with
  | [offset, found, message] =>
    return ⟨← Json.required (Json.toNat? UInt64.size) offset, ← Json.optional charOfJson? found,
      ← Json.required Json.toString? message⟩
  | _ => none

end SyntaxError.Report

end TurtleChain
