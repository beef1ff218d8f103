import SignalTree.Text.Basic

/-!
Paths of files, as they are written. Empty steps say nothing, and neither does a
`.` unless a path begins with it, but the text keeps both and is what messages
show.
-/
namespace SignalTree

structure FilePath where
  text : String
deriving DecidableEq

namespace FilePath

instance : ToString FilePath := ⟨text⟩

def pieces (p : FilePath) : List String := (Text.pieces '/' p.text.toList).map String.ofList

def isAbsolute (p : FilePath) : Bool := p.text.toList.head? == some '/'

/-- Whether the piece at a position is a step of the path. -/
def isStep : String × Nat → Bool
  | (piece, position) => piece != "" && (piece != "." || position == 0)

def stepsBack (p : FilePath) : List (String × Nat) := p.pieces.zipIdx.reverse.dropWhile (!isStep ·)

def parent? (p : FilePath) : Option FilePath :=
  match p.stepsBack with
  | [] => none
  | _ :: before =>
    let text := "/".intercalate ((before.dropWhile (!isStep ·)).reverse.map Prod.fst)
    some ⟨if text == "" && p.isAbsolute then "/" else text⟩

def name? (p : FilePath) : Option String :=
  match p.stepsBack with
  | (step, _) :: _ => if step == "." || step == ".." then none else some step
  | [] => none

def extension? (p : FilePath) : Option String := do
  let name ← p.name?
  return String.ofList (← Text.afterLast? '.' name.toList)

/-- Continues a path. An absolute continuation takes its place. -/
def join (p : FilePath) (more : String) : FilePath :=
  if more.toList.head? = some '/' ∨ p.text = "" then ⟨more⟩
  else if p.text.toList.getLast? = some '/' then ⟨p.text ++ more⟩
  else ⟨p.text ++ "/" ++ more⟩

def here : FilePath := ⟨"."⟩

/-- One step of a search. Found paths do not repeat the `.` of the current directory,
from which an empty step leads nowhere. -/
def searchStep (dir : FilePath) (piece : String) : Option FilePath :=
  if dir = here then if piece == "" then none else some ⟨piece⟩
  else some (dir.join piece)

/-- Where the files that a search below a path finds are listed. -/
def searchRoot? (p : FilePath) : Option FilePath :=
  if p.isAbsolute then (p.pieces.drop 1).foldlM searchStep ⟨"/"⟩
  else p.pieces.foldlM searchStep here

def below (root : FilePath) (names : List String) : FilePath :=
  let tail := "/".intercalate names
  if root = here then ⟨tail⟩ else root.join tail

end FilePath

end SignalTree
