import SignalTree.Model.Units
import SignalTree.Workspace.FileTree
import SignalTree.Workspace.Files

/-! The definition files of a directory and their contents. -/
namespace SignalTree

variable {m : Type → Type} [Monad m] [Files m]

/-- The files that a search below a directory finds, in the order of a walk. -/
def foundFiles (dir : FilePath) (places : List FileTree.Place) : List FilePath :=
  match dir.searchRoot? with
  | none => []
  | some root => (places.mergeSort FileTree.placeLe).map root.below

/-- Files without a format are ignored, with a word about each. -/
def selectInputs (dir : FilePath) (files : List FilePath) : Outcome (List FilePath) := do
  let inputs := files.filter fun file => (Format.ofFile? file).isSome
  let ignored := files.filter fun file => (Format.ofFile? file).isNone
  Outcome.report (ignored.map .fileIgnored)
  if inputs.isEmpty then throw (.configuration (.noDefinitions dir))
  return inputs

def discover (dir : FilePath) : Job m (List FilePath) := do
  if !(← Job.lift (Files.isDirectory dir)) then
    Job.fail (.configuration (.missingDirectory dir))
  else
    let places ← Job.lift (Files.filesBelow dir)
    selectInputs dir (foundFiles dir places)

def readDefinition (format : Format) (file : FilePath) : Job m (List Record) := do
  let source ← Job.attempt file (Files.readText file)
  match format.read source with
  | .ok records => return records
  | .error defect => Job.fail (.definition file defect)

def readRecords (file : FilePath) : Job m (List Record) :=
  match Format.ofFile? file with
  | some format => readDefinition format file
  | none => Job.fail (.configuration (.unsupportedExtension file))

def readNodes : List FilePath → Job m (List Node)
  | [] => return []
  | file :: rest => do
    let records ← readRecords file
    Outcome.report [.fileParsed file records.length]
    let nodes ← readNodes rest
    return records.map Record.resolve ++ nodes

def readRegistry (files : List FilePath) : Job m Registry := do
  let nodes ← readNodes files
  Registry.register nodes

end SignalTree
