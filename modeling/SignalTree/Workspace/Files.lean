import SignalTree.Run.Outcome

/-!
What a run needs from a file system, and runs on one. A run on the disk of a
machine and a run on a tree in memory are the same program.
-/
namespace SignalTree

class Files (m : Type → Type) where
  isDirectory : FilePath → m Bool
  pathExists : FilePath → m Bool
  readText : FilePath → m (Except OsError String)
  writeText : FilePath → String → m (Except OsError PUnit)
  createDirectories : FilePath → m (Except OsError PUnit)
  /-- A new empty directory in the given one, under an absolute path. -/
  createStaging : FilePath → m (Except OsError FilePath)
  removeTree : FilePath → m (Except OsError PUnit)
  rename : FilePath → FilePath → m (Except OsError PUnit)
  /-- The names that lead from a directory to each regular file below it, in no
  particular order. -/
  filesBelow : FilePath → m (List (List String))

/-- A computation on files with an outcome. What it has done to the files stays,
also when it ends with a fault. -/
def Job (m : Type → Type) (α : Type) : Type := m (Outcome α)

namespace Job

variable {m : Type → Type} [Monad m]

def run (x : Job m α) : m (Outcome α) := x

def ofOutcome (x : Outcome α) : Job m α := (pure x : m (Outcome α))

protected def bind (x : Job m α) (f : α → Job m β) : Job m β := (do
  let o ← x.run
  match o.result with
  | .ok a =>
    let p ← (f a).run
    return ⟨o.log ++ p.log, p.result⟩
  | .error e => return ⟨o.log, .error e⟩ : m (Outcome β))

instance : Monad (Job m) where
  pure a := ofOutcome (pure a)
  bind := Job.bind

instance : MonadLift Outcome (Job m) := ⟨ofOutcome⟩

def lift (x : m α) : Job m α := (do return pure (← x) : m (Outcome α))

def fail (e : Fault) : Job m α := ofOutcome (throw e)

def attempt (path : FilePath) (x : m (Except OsError α)) : Job m α := (do
  match ← x with
  | .ok a => return pure a
  | .error e => return throw (Fault.io path e) : m (Outcome α))

def onFault (x : Job m α) (cleanUp : m PUnit) : Job m α := (do
  let o ← x.run
  if o.result matches .error _ then cleanUp
  return o : m (Outcome α))

end Job

end SignalTree
