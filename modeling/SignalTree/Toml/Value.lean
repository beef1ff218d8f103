/-! TOML values, as far as they can be told apart by how they may be extended. -/
namespace SignalTree

/-- How a table came about, which decides what may still be added to it. -/
inductive TableOrigin where
  /-- Between the braces of an inline table, where it is complete. -/
  | inline
  /-- By a header of its own, or as the root of the document. -/
  | header
  /-- As a step of the path of a header. -/
  | headerStep
  /-- As a step of a dotted key. -/
  | dotted
deriving DecidableEq

/-- Of scalars only strings keep their value. Of an array of tables the last one
is kept, to which headers still add. -/
inductive Toml where
  | string (value : String)
  | scalar
  | array
  | table (origin : TableOrigin) (entries : List (String × Toml))
  | tables (last : List (String × Toml))

namespace Toml

abbrev Entries := List (String × Toml)

/-- Replaces the value of a key, or appends it. -/
def setEntry (key : String) (value : Toml) : Entries → Entries
  | [] => [(key, value)]
  | (k, v) :: rest => if k = key then (k, value) :: rest else (k, v) :: setEntry key value rest

def addNew? (key : String) (value : Toml) (entries : Entries) : Option Entries :=
  if (entries.lookup key).isSome then none else some (entries ++ [(key, value)])

/-- Adds a value under the steps of a dotted key. The table that takes the value
must have come about by dotted keys; tables on the way need only not have a
header of their own. -/
def addUnder? (value : Toml) : List String → (isDotted : Bool) → Entries → Option Entries
  | [], _, _ => none
  | [key], isDotted, entries => if isDotted then addNew? key value entries else none
  | step :: more, _, entries =>
    let keep (rebuild : Entries → Toml) (inner : Option Entries) : Option Entries :=
      inner.map fun inner => setEntry step (rebuild inner) entries
    match entries.lookup step with
    | none => keep (table .dotted) (addUnder? value more true [])
    | some (table .dotted inner) => keep (table .dotted) (addUnder? value more true inner)
    | some (table .headerStep inner) =>
      keep (table .headerStep) (addUnder? value more false inner)
    | some (tables last) => keep tables (addUnder? value more false last)
    | some _ => none

def addDotted? (value : Toml) (keys : List String) (entries : Entries) : Option Entries :=
  match keys with
  | [key] => addNew? key value entries
  | keys => addUnder? value keys false entries

/-- Changes the table that the steps of a header lead to. Steps that do not exist
yet become tables, and an array of tables stands for its last one. -/
def changeAt? (change : Entries → Option Entries) : List String → Entries → Option Entries
  | [], entries => change entries
  | step :: more, entries =>
    match entries.lookup step with
    | none =>
      (changeAt? change more []).map fun inner => setEntry step (table .headerStep inner) entries
    | some (table .inline _) => none
    | some (table origin inner) =>
      (changeAt? change more inner).map fun inner => setEntry step (table origin inner) entries
    | some (tables last) =>
      (changeAt? change more last).map fun last => setEntry step (tables last) entries
    | some _ => none

def entriesAt? : List String → Entries → Option Entries
  | [], entries => some entries
  | step :: more, entries =>
    match entries.lookup step with
    | some (table _ inner) => entriesAt? more inner
    | some (tables last) => entriesAt? more last
    | _ => none

end Toml

end SignalTree
