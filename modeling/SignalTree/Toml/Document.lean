import SignalTree.Toml.Reader

/-! TOML documents: the root table that a row of statements builds. -/
namespace SignalTree.Toml

/-- The table under the present header is kept apart until the next header. -/
structure Builder where
  root : Entries
  header : List String
  ofTables : Bool
  current : Entries

namespace Builder

def start : Builder := ⟨[], [], false, []⟩

/-- Puts the present table to its place. -/
def finish? (b : Builder) : Option Entries :=
  match b.header.getLast? with
  | none => some b.current
  | some key =>
    b.root |> changeAt? (fun entries =>
      if b.ofTables then some (setEntry key (tables b.current) entries)
      else addNew? key (table .header b.current) entries) b.header.dropLast

/-- Only a table that headers have passed through but not opened yet is opened
by a header; it moves behind the tables before it. -/
def openTable? (keys : List String) (root : Entries) : Option Builder := do
  let key ← keys.getLast?
  let found := (entriesAt? keys.dropLast root).bind fun es => es.lookup key
  match found with
  | none => return ⟨← changeAt? some keys.dropLast root, keys, false, []⟩
  | some (table .headerStep inner) =>
    let without (entries : Entries) : Option Entries := some (entries.filter (·.1 != key))
    return ⟨← changeAt? without keys.dropLast root, keys, false, inner⟩
  | some _ => none

def openTables? (keys : List String) (root : Entries) : Option Builder := do
  let key ← keys.getLast?
  let place (entries : Entries) : Option Entries :=
    match entries.lookup key with
    | none => some (entries ++ [(key, tables [])])
    | some (tables _) => some entries
    | some _ => none
  return ⟨← changeAt? place keys.dropLast root, keys, true, []⟩

def step? (b : Builder) : Statement → Option Builder
  | .entry keys value => (addDotted? value keys b.current).map fun es => { b with current := es }
  | .header keys => do openTable? keys (← b.finish?)
  | .tablesHeader keys => do openTables? keys (← b.finish?)

end Builder

/-- A byte order mark may stand in front of a document. -/
def skipMark : List Char → List Char
  | '\uFEFF' :: rest => rest
  | cs => cs

def read? (text : String) : Option Entries := do
  let cs := skipMark text.toList
  let statements ← readStatements? (cs.length + 1) cs
  (← statements.foldlM Builder.step? .start).finish?

end SignalTree.Toml
