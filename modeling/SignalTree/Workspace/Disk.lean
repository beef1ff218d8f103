import SignalTree.Workspace.FileTree
import SignalTree.Workspace.Files

/-! A file system in memory: one tree of files, and the directory that a program works in. -/
namespace SignalTree

/-- The most bytes that a path and one name on it may have, where there is a bound.
Disks have the usual ones, unless others are given. -/
class Limits where
  path : Option Nat
  name : Option Nat

namespace Limits

instance usual : Limits := ⟨some 4095, some 255⟩

abbrev none : Limits := ⟨.none, .none⟩

def isExceeded (bound : Option Nat) (text : String) : Bool := bound.any (· < text.utf8ByteSize)

end Limits

/-- The place of the directory that relative paths start in. -/
class WorkingDirectory where
  place : FileTree.Place

instance WorkingDirectory.top : WorkingDirectory := ⟨[]⟩

/-- `home` is the absolute path of the tree. The home of a whole file system is the
empty text. -/
structure Disk where
  home : String
  tree : FileTree
  [limits : Limits]
  [current : WorkingDirectory]

namespace Disk

abbrev Action := StateM Disk

def isName (piece : String) : Bool := piece != "" && piece != "."

def placeOf (pieces : List String) : FileTree.Place := pieces.filter isName

/-- Whether a path starts at the root and not in the working directory. The home
may be a word that stands for an absolute path. -/
def isRooted (d : Disk) (p : FilePath) : Bool :=
  p.isAbsolute || (d.home ++ "/").toList.isPrefixOf p.text.toList

/-- What is left of a path after it has led through a place. -/
def through? : FileTree.Place → (pieces : List String) → Option (List String)
  | [], pieces => some pieces
  | name :: place, pieces =>
    match pieces.dropWhile (!isName ·) with
    | [] => none
    | piece :: rest => if piece = name then through? place rest else none

def relative? (d : Disk) (p : FilePath) : Option (List String) :=
  if d.isRooted p then through? (placeOf (FilePath.mk d.home).pieces) p.pieces
  else some (d.current.place ++ p.pieces)

def rooted (d : Disk) (p : FilePath) : FilePath :=
  if d.isRooted p then p else ⟨"/".intercalate (d.home :: d.current.place) ++ "/" ++ p.text⟩

/-- The way that a path leads, unless no path can have that text or it leads elsewhere. -/
def route (d : Disk) (p : FilePath) : Except OsError (List String) :=
  if p.text.toList.contains '\x00' then .error .nulInPath
  else if Limits.isExceeded d.limits.path p.text then .error .nameTooLong
  else if p.text == "" then .error .notFound
  else
    match d.relative? p with
    | some pieces => .ok pieces
    | none => .error .notFound

def lookup (d : Disk) (entries : List (String × FileTree)) (name : String) :
    Except OsError (Option FileTree) :=
  if Limits.isExceeded d.limits.name name then .error .nameTooLong
  else .ok (entries.lookup name)

/-- One step along a path. Only a directory can be passed through. -/
def follow (d : Disk) (t : FileTree) (piece : String) : Except OsError FileTree :=
  match t with
  | .file _ => .error .notADirectory
  | .directory entries =>
    if isName piece then do
      match ← d.lookup entries piece with
      | some t => return t
      | none => .error .notFound
    else .ok t

def find (d : Disk) (p : FilePath) : Except OsError FileTree := do
  (← d.route p).foldlM d.follow d.tree

def trimPieces (pieces : List String) : List String :=
  (pieces.reverse.dropWhile (· == "")).reverse

structure Target where
  directory : FileTree.Place
  entries : List (String × FileTree)
  name : String

def Target.place (t : Target) : FileTree.Place := t.directory ++ [t.name]

def entry (d : Disk) (t : Target) : Except OsError (Option FileTree) := d.lookup t.entries t.name

/-- The last step of a path, once all steps before it are followed. A path that
ends in a dot has no last step, and neither has the root. -/
def target (d : Disk) (pieces : List String) (unnamed : OsError) : Except OsError Target :=
  match pieces.getLast? with
  | none => .error unnamed
  | some name => do
    match ← pieces.dropLast.foldlM d.follow d.tree with
    | .file _ => .error .notADirectory
    | .directory entries =>
      if isName name then return ⟨placeOf pieces.dropLast, entries, name⟩ else .error unnamed

def update (f : Disk → Except OsError FileTree) : Action (Except OsError PUnit) := fun d =>
  match f d with
  | .ok tree => (.ok ⟨⟩, { d with tree })
  | .error e => (.error e, d)

def readBytes (d : Disk) (p : FilePath) : Except OsError ByteArray := do
  match ← d.find p with
  | .file content => return content
  | .directory _ => .error .isADirectory

def readText (d : Disk) (p : FilePath) : Except OsError String := do
  match String.fromUTF8? (← d.readBytes p) with
  | some text => return text
  | none => .error .invalidText

/-- A path with a slash at its end names a directory. -/
def writeBytes (p : FilePath) (content : ByteArray) : Action (Except OsError PUnit) :=
  update fun d => do
    let pieces ← d.route p
    let t ← d.target (trimPieces pieces) .isADirectory
    if pieces.getLast? = some "" then .error .isADirectory
    else
      match ← d.entry t with
      | some (.directory _) => .error .isADirectory
      | _ => return d.tree.put t.place (.file content)

def createDirectory (p : FilePath) : Action (Except OsError PUnit) :=
  update fun d => do
    let t ← d.target (trimPieces (← d.route p)) .alreadyExists
    match ← d.entry t with
    | some _ => .error .alreadyExists
    | none => return d.tree.put t.place (.directory [])

def isDirectory (d : Disk) (p : FilePath) : Bool :=
  match d.find p with
  | .ok t => t.isDirectory
  | .error _ => false

def acceptDirectory (p : FilePath) (x : Except OsError PUnit) : Action (Except OsError PUnit) := do
  match x with
  | .ok _ => return .ok ⟨⟩
  | .error e => return if (← get).isDirectory p then .ok ⟨⟩ else .error e

/-- Creates the missing parents first, at most `steps` of them. -/
def createMissing (p : FilePath) : (steps : Nat) → Action (Except OsError PUnit)
  | 0 => createDirectory p
  | steps + 1 => do
    if p.text == "" then return .ok ⟨⟩
    match ← createDirectory p with
    | .error .notFound =>
      match p.parent? with
      | none => return .error .notFound
      | some parent =>
        match ← createMissing parent steps with
        | .error e => return .error e
        | .ok _ => acceptDirectory p (← createDirectory p)
    | x => acceptDirectory p x

def createDirectories (p : FilePath) : Action (Except OsError PUnit) :=
  createMissing p (p.text.length + 1)

def listing (d : Disk) (p : FilePath) : Except OsError (List (String × FileTree)) := do
  match ← d.find p with
  | .file _ => .error .notADirectory
  | .directory entries => return entries

/-- Removes a directory with all that is in it. The directory itself cannot be
removed by a path that ends in a dot, but then it is empty already. -/
def removeTree (p : FilePath) : Action (Except OsError PUnit) := fun d =>
  match (do let _ ← d.listing p; d.route p : Except OsError (List String)) with
  | .error e => (.error e, d)
  | .ok pieces =>
    let place := placeOf pieces
    if (trimPieces pieces).getLast?.any isName then
      (.ok ⟨⟩, { d with tree := d.tree.erase place })
    else (.error .invalidArgument, { d with tree := d.tree.change (fun _ => []) place })

def removeFile (p : FilePath) : Action (Except OsError PUnit) :=
  update fun d => do
    match ← d.find p with
    | .file _ => return d.tree.erase (placeOf (← d.route p))
    | .directory _ => .error .isADirectory

/-- Moves a directory. Only an empty directory makes room for it. -/
def rename (source goal : FilePath) : Action (Except OsError PUnit) :=
  update fun d => do
    let origin := placeOf (← d.route source)
    let pieces ← d.route goal
    let moved ← d.find source
    let t ← d.target (trimPieces pieces) .busy
    let replaced ← d.entry t
    if origin.isPrefixOf t.place then .error .invalidArgument
    else
      match replaced with
      | some (.file _) => .error .notADirectory
      | some (.directory (_ :: _)) => .error .notEmpty
      | _ => return (d.tree.erase origin).put t.place moved

def stagingPrefix : String := ".vss-codegen-"

/-- Names that no other entry has are found by trying; stars stand for them. -/
def stagingName (entries : List (String × FileTree)) : String :=
  let names := (List.range (entries.length + 1)).map fun n =>
    stagingPrefix ++ String.ofList (List.replicate (n + 1) '*')
  (names.find? fun name => (entries.lookup name).isNone).getD stagingPrefix

def createStaging (p : FilePath) : Action (Except OsError FilePath) := fun d =>
  match d.listing p with
  | .error e => (.error e, d)
  | .ok entries =>
    let staging := (d.rooted p).join (stagingName entries)
    match createDirectory staging d with
    | (.ok _, d) => (.ok staging, d)
    | (.error .nameTooLong, d) => (.error (.chosenNameTooLong staging), d)
    | (.error e, d) => (.error e, d)

def filesBelow (d : Disk) (p : FilePath) : List FileTree.Place :=
  match d.find p with
  | .ok t => t.contents.filterMap fun (place, s) => if s.isDirectory then none else some place
  | .error _ => []

instance : Files Action where
  isDirectory p := do return (← get).isDirectory p
  pathExists p := do return ((← get).find p).isOk
  readText p := do return (← get).readText p
  writeText p text := writeBytes p text.toUTF8
  createDirectories := createDirectories
  createStaging := createStaging
  removeTree := removeTree
  rename := rename
  filesBelow p := do return (← get).filesBelow p

end Disk

end SignalTree
