import TurtleChain.Chain.Operation
import TurtleChain.NameMap
import TurtleChain.Text.Quoted
import TurtleChain.Walk.ActionKind

/-! Action maps say what each operation name does to a context. -/

namespace TurtleChain

/-- A cell of the grid. -/
structure Cell where
  x : Int
  y : Int
  deriving DecidableEq

/-- Why an operation could not be applied. -/
inductive ActionError where
  | missingArgument
  | notANumber (arg : Arg)
  | unknownColor (text : String)

namespace ActionError

def message : ActionError → String
  | missingArgument => "missing argument"
  | notANumber arg => "expected a number, got " ++ arg.render
  | unknownColor text => "unknown colour " ++ text

end ActionError

/-- How far steps go: a draw step goes `distance` times its argument, unless `distance` is missing or zero. -/
structure Pace where
  distance : Option Float := none

/-- The new position, if the step changed it. -/
abbrev Moved := Option Cell

/-- What an operation does to a context, given its argument. -/
abbrev Action (C : Type) := Option Arg → Pace → C → Except ActionError Moved × C

structure Binding (C : Type) where
  kind : ActionKind
  action : Action C

namespace Binding

/-- The binding in words. An action has none. -/
def render {C : Type} (binding : Binding C) : String :=
  "FunctionEntry \x7b category: " ++ binding.kind.name.capitalize ++ ", .. \x7d"

end Binding

abbrev ActionMap (C : Type) := NameMap (Binding C)

namespace ActionMap

variable {C : Type}

/-- Binds the name, in place of what it was bound to. -/
def bind (map : ActionMap C) (name : String) (kind : ActionKind) (action : Action C) :
    ActionMap C :=
  map.put name ⟨kind, action⟩

/-- Binds the name to what the target is bound to, if it is bound. -/
def alias? (map : ActionMap C) (name target : String) : Option (ActionMap C) :=
  (map.get? target).map (map.put name)

def kind? (map : ActionMap C) (name : String) : Option ActionKind :=
  (map.get? name).map Binding.kind

/-- Operations of this name are movements. -/
def isMovement (map : ActionMap C) (name : String) : Bool :=
  ((kind? map name).map ActionKind.isMovement).getD false

/-- The bound names, in words. -/
def render (map : ActionMap C) : String :=
  "FunctionMap \x7b names: [" ++ ", ".intercalate (map.names.map Text.quotedString) ++ "] \x7d"

end ActionMap

/-- The number that a step needs as its argument. -/
def requiredNumber : Option Arg → Except ActionError Float
  | none => .error .missingArgument
  | some arg =>
    match arg.number? with
    | some x => .ok x
    | none => .error (.notANumber arg)

end TurtleChain
