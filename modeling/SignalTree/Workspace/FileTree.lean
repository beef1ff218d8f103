/-!
Trees of files. A place in a tree is the list of names that lead to it, so the
empty list is the tree itself.
-/
namespace SignalTree

inductive FileTree where
  | file (content : ByteArray)
  | directory (entries : List (String × FileTree))

namespace FileTree

abbrev Place := List String

def isDirectory : FileTree → Bool
  | directory _ => true
  | file _ => false

def entries : FileTree → List (String × FileTree)
  | directory entries => entries
  | file _ => []

def at? : FileTree → Place → Option FileTree
  | t, [] => some t
  | directory entries, name :: rest => (entries.lookup name).bind (·.at? rest)
  | file _, _ :: _ => none

def change (f : List (String × FileTree) → List (String × FileTree)) :
    Place → FileTree → FileTree
  | _, file content => file content
  | [], directory entries => directory (f entries)
  | name :: rest, directory entries =>
    directory (entries.map fun (n, t) => (n, if n = name then change f rest t else t))

def setEntry (name : String) (t : FileTree) : List (String × FileTree) → List (String × FileTree)
  | [] => [(name, t)]
  | (n, old) :: rest => if n = name then (n, t) :: rest else (n, old) :: setEntry name t rest

def eraseEntry (name : String) (entries : List (String × FileTree)) : List (String × FileTree) :=
  entries.filter (·.1 != name)

/-- Puts a tree at a place whose directory exists. -/
def put (t : FileTree) (place : Place) (new : FileTree) : FileTree :=
  match place.getLast? with
  | none => new
  | some name => t.change (setEntry name new) place.dropLast

def erase (t : FileTree) (place : Place) : FileTree :=
  match place.getLast? with
  | none => t
  | some name => t.change (eraseEntry name) place.dropLast

mutual

def contents : FileTree → List (Place × FileTree)
  | file _ => []
  | directory entries => contentsOf entries

def contentsOf : List (String × FileTree) → List (Place × FileTree)
  | [] => []
  | (name, t) :: rest =>
    ([name], t) :: t.contents.map (fun (place, s) => (name :: place, s)) ++ contentsOf rest

end

/-- The order of a walk by names: a directory before what is in it, siblings with
all that is in them one after the other. -/
def placeLe : Place → Place → Bool
  | [], _ => true
  | _ :: _, [] => false
  | a :: as, b :: bs => a < b || (a == b && placeLe as bs)

end FileTree

end SignalTree
