import SignalTree.Source.File
import SignalTree.Workspace.Files

/-!
Putting a module in its place. The files are written to a new directory beside
the place, which then takes the place of what was there.
-/
namespace SignalTree

variable {m : Type → Type} [Monad m] [Files m]

def parentDirectory (dir : FilePath) : FilePath :=
  match dir.parent? with
  | some parent => if parent.text == "" then .here else parent
  | none => .here

def writeFiles (dir : FilePath) : List SourceFile → Job m PUnit
  | [] => return ⟨⟩
  | file :: rest => do
    let path := dir.join file.name
    Job.attempt path (Files.writeText path file.contents)
    writeFiles dir rest

/-- What stood at the place is removed last, when all files are written. -/
def replaceDirectory (staging dir : FilePath) : Job m PUnit := do
  if ← Job.lift (Files.pathExists dir) then
    Job.attempt dir (Files.removeTree dir)
  Job.attempt dir (Files.rename staging dir)

/-- Fills a new directory and puts it in the place of another, or takes it away again. -/
def fillAndReplace (staging dir : FilePath) (files : List SourceFile) : Job m PUnit :=
  Job.onFault
    (do
      writeFiles staging files
      replaceDirectory staging dir)
    (do let _ ← Files.removeTree staging)

/-- Makes a directory hold exactly the given files. -/
def install (dir : FilePath) (files : List SourceFile) : Job m PUnit := do
  let parent := parentDirectory dir
  Job.attempt parent (Files.createDirectories parent)
  let staging ← Job.attempt parent (Files.createStaging parent)
  fillAndReplace staging dir files

end SignalTree
