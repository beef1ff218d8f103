import SignalTree.Definition.Flat
import SignalTree.Definition.Nested
import SignalTree.Workspace.FilePath

/-! The formats of definition files. -/
namespace SignalTree

inductive Format where
  | json
  | yaml
deriving DecidableEq

namespace Format

def all : List Format := [json, yaml]

def extensions : Format → List String
  | json => ["json"]
  | yaml => ["yml", "yaml"]

def allExtensions : List String := all.flatMap extensions

def ofExtension? (ext : String) : Option Format := all.find? (·.extensions.contains ext)

def ofFile? (file : FilePath) : Option Format := file.extension?.bind ofExtension?

def read : Format → String → Except Defect (List Record)
  | json => Definition.Nested.read Attribute.all
  | yaml => Definition.Flat.read

end Format

end SignalTree
