import TurtleChain.NameMap
import TurtleChain.Chain.Operation

/-! Replacement tables: at most one rule for each operation name. -/

namespace TurtleChain

inductive RewriteError where
  | duplicateRule (name : String)
  | tooLong (generation length limit : Nat)
  deriving DecidableEq

namespace RewriteError

def message : RewriteError → String
  | duplicateRule name => "Replacement table already has a rule for " ++ name
  | tooLong generation length limit =>
    "Generation " ++ toString generation ++ " has " ++ toString length ++
      " operations, over the limit of " ++ toString limit

end RewriteError

/-- A rule: what an operation of this name is replaced by. -/
structure Rule where
  name : String
  sequence : Sequence

structure Table where
  rules : NameMap Sequence

namespace Table

def empty : Table := ⟨.empty⟩

def get? (table : Table) (name : String) : Option Sequence :=
  table.rules.get? name

def contains (table : Table) (name : String) : Bool :=
  table.rules.contains name

def size (table : Table) : Nat :=
  table.rules.size

def names (table : Table) : List String :=
  table.rules.names

/-- Puts a rule into the table that is kept. The first rule for a name stays. -/
def add (rule : Rule) : ExceptT RewriteError (StateM Table) Unit := do
  let table ← get
  if table.contains rule.name then
    throw (.duplicateRule rule.name)
  else
    set { table with rules := table.rules.put rule.name rule.sequence }

/-- The table with a rule more, unless the rule is refused. -/
def insert (table : Table) (rule : Rule) : Except RewriteError Table :=
  match (add rule).run.run table with
  | (.ok (), next) => .ok next
  | (.error e, _) => .error e

def ofRules (rules : List Rule) : Except RewriteError Table :=
  rules.foldlM insert empty

end Table

end TurtleChain
