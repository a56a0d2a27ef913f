import TurtleChain.Config.Basic
import TurtleChain.Number.Numeral
import TurtleChain.Walk.Report

/-! The command line. `Request.ofArgs?` reads the arguments of a call; it has no answer for a wrong call. -/

namespace TurtleChain

/-- What the arguments of a command may be. -/
structure ArgumentForm where
  switches : List String
  /-- Options that have a value. -/
  options : List String
  /-- The greatest number of arguments that are no option. -/
  plain : Nat

/-- Arguments sorted by what they are. -/
structure Arguments where
  switches : List String := []
  options : List (String × String) := []
  plain : List String := []

namespace Arguments

def addSwitch (found : Arguments) (name : String) : Option Arguments :=
  if found.switches.contains name then none
  else some { found with switches := name :: found.switches }

def addOption (found : Arguments) (name value : String) : Option Arguments :=
  if (found.options.lookup name).isSome then none
  else some { found with options := (name, value) :: found.options }

def addPlain (form : ArgumentForm) (found : Arguments) (arg : String) : Option Arguments :=
  if found.plain.length < form.plain then some { found with plain := found.plain ++ [arg] } else none

/-- An argument that is an option or a switch by its looks. A single dash is a plain one. -/
def isDashed (arg : String) : Bool :=
  match arg.toList with
  | '-' :: _ :: _ => true
  | _ => false

/-- The name behind two dashes, and what stands behind the first equals sign. -/
def splitLong? (arg : String) : Option (String × Option String) :=
  match arg.toList with
  | '-' :: '-' :: cs =>
    let value := match cs.dropWhile (· != '=') with
      | [] => none
      | _ :: value => some (String.ofList value)
    some (String.ofList (cs.takeWhile (· != '=')), value)
  | _ => none

/-- Sorts the arguments. A switch has no value; the value of an option stands behind an equals sign or is the
next argument, which then must not be a dashed one. Nothing is given twice, and behind two dashes all
arguments are plain. -/
def sort? (form : ArgumentForm) (found : Arguments) : List String → Option Arguments
  | [] => some found
  | arg :: rest =>
    if arg = "--" then rest.foldlM (addPlain form) found
    else
      match splitLong? arg with
      | some (name, none) =>
        if form.switches.contains name then do
          let found ← found.addSwitch name
          sort? form found rest
        else if form.options.contains name then
          match rest with
          | [] => none
          | value :: rest =>
            if isDashed value then none
            else do
              let found ← found.addOption name value
              sort? form found rest
        else none
      | some (name, some value) =>
        if form.options.contains name then do
          let found ← found.addOption name value
          sort? form found rest
        else none
      | none =>
        if isDashed arg then none
        else do
          let found ← addPlain form found arg
          sort? form found rest

/-- The value of an option, if it is given. -/
def value? {α : Type} (read : String → Option α) (name : String) (args : Arguments) : Option (Option α) :=
  match args.options.lookup name with
  | none => some none
  | some text => (read text).map some

end Arguments

/-- A natural number of at most 64 bits; a plus sign may stand in front. -/
def readWord? (text : String) : Option Nat := do
  let n ← readInt? text
  if text.toList.head? = some '-' ∨ UInt64.size ≤ n then none else some n.toNat

structure GenerateOptions where
  configPath : Option String
  overrides : Config.Overrides
  json : Bool

inductive Command where
  | parse (source : String) (json : Bool)
  | generate (options : GenerateOptions)
  | walk (options : GenerateOptions) (walkOptions : Walk.Options)
  | checkConfig (path : Option String)

namespace Command

/-- The file that a command reads, if any. -/
def file? : Command → Option String
  | parse .. => none
  | generate options | walk options _ => options.configPath
  | checkConfig path => path

private def path? (text : String) : Option String :=
  if text = "" then none else some text

/-- The path of the configuration file: given in the call, or else by the environment. An empty path is
wrong in either. -/
def configPath? (env : Option String) (args : Arguments) : Option (Option String) := do
  match ← args.value? path? "config", env with
  | some given, _ => return some given
  | none, some path => return some (← path? path)
  | none, none => return none

private def generateForm : ArgumentForm where
  switches := ["json"]
  options := ["config", "family", "iterations", "side", "max-operations", "jitter-seed"]
  plain := 0

private def walkForm : ArgumentForm :=
  { generateForm with options := generateForm.options ++ ["max-life", "distance"] }

private def generateOptions? (env : Option String) (args : Arguments) : Option GenerateOptions := do
  return {
    configPath := ← configPath? env args
    overrides := {
      family := ← args.value? Family.ofText? "family"
      iterations := ← args.value? readWord? "iterations"
      sideLength := ← args.value? readFloat? "side"
      maxOperations := ← args.value? readWord? "max-operations"
      jitterSeed := (← args.value? readWord? "jitter-seed").map UInt64.ofNat }
    json := args.switches.contains "json" }

/-- The command of a name with the arguments behind it. -/
def ofArgs? (env : Option String) (name : String) (rest : List String) : Option Command :=
  match name with
  | "parse" => do
    let args ← Arguments.sort? { switches := ["json"], options := [], plain := 1 } {} rest
    let source ← args.plain.head?
    return parse source (args.switches.contains "json")
  | "generate" => do
    let args ← Arguments.sort? generateForm {} rest
    return generate (← generateOptions? env args)
  | "walk" => do
    let args ← Arguments.sort? walkForm {} rest
    let options ← generateOptions? env args
    return walk options {
      maxLife := ← args.value? readWord? "max-life"
      distance := ← args.value? readFloat? "distance" }
  | "check-config" => do
    let args ← Arguments.sort? { switches := [], options := ["config"], plain := 0 } {} rest
    return checkConfig (← configPath? env args)
  | _ => none

end Command

/-- What a call asks for. -/
inductive Request where
  | version
  | command (command : Command)

namespace Request

private def asksForVersion (arg : String) : Bool :=
  arg == "--version" || ['-', 'V'].isPrefixOf arg.toList

/-- Reads the arguments of a call. `env` is the path of the configuration file that the environment gives. -/
def ofArgs? (env : Option String) : List String → Option Request
  | [] => none
  | name :: rest =>
    if asksForVersion name then some version else (Command.ofArgs? env name rest).map command

end Request

end TurtleChain
