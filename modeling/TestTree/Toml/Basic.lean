import TestTree.Text.Basic

namespace TestTree

inductive Toml
  | string (value : Text)
  | integer (n : Int)
  | boolean (value : Bool)
  | array (elements : List Toml)
  | table (entries : List (Text × Toml))

namespace Toml

/-- The keys that lead from the outermost table to a value. -/
abbrev KeyPath := List Text

inductive Statement
  | header (path : KeyPath)
  /-- A value, below the header of the table at `place`. -/
  | entry (place key : KeyPath) (value : Toml)

/-- The tables that a key of several parts makes on the way to its value. -/
def passed (place : KeyPath) : KeyPath → List KeyPath
  | [] => []
  | [_] => []
  | name :: next :: rest => (place ++ [name]) :: passed (place ++ [name]) (next :: rest)

namespace Statement

/-- Whether one statement cannot stand behind another. -/
def clashes : Statement → Statement → Bool
  | header a, header b => a == b
  | entry place key _, header b => (place ++ key).isPrefixOf b || (passed place key).contains b
  | header a, entry place key _ => (place ++ key).isPrefixOf a || (passed place key).contains a
  | entry place key _, entry place' key' _ =>
      (place ++ key).isPrefixOf (place' ++ key') || (place' ++ key').isPrefixOf (place ++ key)

end Statement

/-- No statement clashes with one behind it. -/
def areConsistent : List Statement → Bool
  | [] => true
  | statement :: rest => rest.all (!statement.clashes ·) && areConsistent rest

abbrev Entries := List (Text × Toml)

namespace Entries

def get? (entries : Entries) (name : Text) : Option Toml :=
  (entries.find? fun entry => entry.1 == name).map (·.2)

def set (entries : Entries) (name : Text) (value : Toml) : Entries :=
  match entries with
  | [] => [(name, value)]
  | entry :: rest => if entry.1 = name then (name, value) :: rest else entry :: set rest name value

/-- The entries of the table at a name. -/
def below (entries : Entries) (name : Text) : Entries :=
  match get? entries name with
  | some (.table inner) => inner
  | _ => []

/-- Puts a value at the end of a path, or just makes the tables on the path. -/
def put (value : Option Toml) : KeyPath → Entries → Entries
  | [], entries => entries
  | [name], entries => entries.set name (value.getD (.table (entries.below name)))
  | name :: next :: rest, entries =>
      entries.set name (.table (put value (next :: rest) (entries.below name)))

end Entries

/-- What statements say, if they do not clash. -/
def entries? (statements : List Statement) : Option Entries :=
  if areConsistent statements then
    some (statements.foldl (fun entries statement =>
      match statement with
      | .header path => entries.put none path
      | .entry place key value => entries.put (some value) (place ++ key)) [])
  else none

end Toml

end TestTree
