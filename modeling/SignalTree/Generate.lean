import SignalTree.Model.Units
import SignalTree.Settings.Basic
import SignalTree.Workspace.Discovery
import SignalTree.Workspace.Install

/-! From a directory of definitions to a generated module. -/
namespace SignalTree

variable {m : Type → Type} [Monad m] [Files m]

structure Model where
  inputs : List FilePath
  registry : Registry
  units : List TypeUnit

def buildModel (dir : FilePath) : Job m Model := do
  let inputs ← discover dir
  let registry ← readRegistry inputs
  if registry.nodes.isEmpty then Job.fail (.configuration (.noNodes dir))
  else
    let units ← registry.units
    return { inputs, registry, units }

structure Report where
  inputs : List FilePath
  nodes : Nat
  units : Nat
  moduleDir : FilePath
  files : List String
deriving DecidableEq

def generate (settings : Settings) : Job m Report := do
  let model ← buildModel settings.inputDir
  let files ← Source.renderModule model.units settings.module
  install settings.moduleDir files
  Outcome.report [.modelWritten model.units.length settings.moduleDir]
  return {
    inputs := model.inputs
    nodes := model.registry.nodes.length
    units := model.units.length
    moduleDir := settings.moduleDir
    files := files.map SourceFile.name }

namespace Settings

def load (file : Option FilePath) (overrides : Preferences) : Job m Settings := do
  match file with
  | none => Outcome.ofExcept (resolve .empty overrides)
  | some file =>
    let source ← Job.attempt file (Files.readText file)
    match Preferences.ofToml source with
    | .ok preferences => Outcome.ofExcept (resolve preferences overrides)
    | .error defect => Job.fail (.configuration (.settings file defect))

end Settings

end SignalTree
