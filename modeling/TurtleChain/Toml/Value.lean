/-! Values of the configuration format TOML, and the tables that a document builds up. Dates and times keep
their spelling, since nothing is read from them. Arrays of tables hold nothing that a configuration can use,
and are left out. -/

namespace TurtleChain

namespace Toml

/-- How a table came about, which decides how it may be added to. -/
inductive TableKind where
  /-- By a header of its own, or as the document. -/
  | opened
  /-- On the way to a table with a header; its own header may still come. -/
  | passed
  /-- By a dotted key. -/
  | dotted
  /-- Between braces; it is complete. -/
  | inline
  deriving DecidableEq

end Toml

inductive Toml where
  | string (content : String)
  | integer (value : Int)
  | float (value : Float)
  | bool (value : Bool)
  | datetime (spelling : String)
  | array (items : List Toml)
  | table (kind : Toml.TableKind) (entries : List (String × Toml))

namespace Toml

abbrev Entries := List (String × Toml)

private def replaceEntry (key : String) (value : Toml) (entries : Entries) : Entries :=
  entries.map fun entry => if entry.1 = key then (key, value) else entry

/-- Changes the table that a path of keys leads to, and makes the tables that are missing on the way. A
dotted path may not enter a table that has a header. -/
def changeAt (viaDots : Bool) (change : TableKind → Entries → Option Toml) :
    List String → TableKind → Entries → Option Toml
  | [], kind, entries => change kind entries
  | key :: path, kind, entries =>
    match entries.lookup key with
    | none => do
      let inner ← changeAt viaDots change path (if viaDots then .dotted else .passed) []
      return table kind (entries ++ [(key, inner)])
    | some (table innerKind inner) =>
      if innerKind = .inline ∨ (viaDots ∧ innerKind = .opened) then none
      else do
        let inner ← changeAt viaDots change path innerKind inner
        return table kind (replaceEntry key inner entries)
    | some _ => none

/-- Adds a value under a dotted key, given as the path in front of the last part and that part. Behind a path
the table has to be one that dotted keys made. -/
def addValue (path : List String) (key : String) (value : Toml) : TableKind → Entries → Option Toml :=
  changeAt true (fun kind entries =>
    if (kind = .dotted) = (path = []) then none
    else if (entries.lookup key).isSome then none
    else some (table kind (entries ++ [(key, value)]))) path

/-- Opens a table by its header. A table has one header at most. -/
def openTable (path : List String) (key : String) : TableKind → Entries → Option Toml :=
  changeAt false (fun kind entries =>
    match entries.lookup key with
    | none => some (table kind (entries ++ [(key, table .opened [])]))
    | some (table .passed inner) => some (table kind (replaceEntry key (table .opened inner) entries))
    | some _ => none) path

end Toml

end TurtleChain
