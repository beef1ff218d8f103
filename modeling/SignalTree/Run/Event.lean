import SignalTree.Datatype.Literal
import SignalTree.Path
import SignalTree.Workspace.FilePath

/-! What a run reports while it works. -/
namespace SignalTree

inductive Level where
  | debug
  | info
  | warn
deriving DecidableEq

def Level.name : Level → String
  | debug => "DEBUG"
  | info => "INFO"
  | warn => "WARN"

inductive BoundKind where
  | min
  | max
deriving DecidableEq

def BoundKind.name : BoundKind → String
  | min => "MIN"
  | max => "MAX"

inductive Event where
  | duplicateDropped (path : Path)
  | leavesShared (leaves : List Segment)
  | orphanSkipped (path : Path)
  | boundOmitted (path : Path) (bound : BoundKind) (raw : String) (type : ValueType)
  | fileParsed (file : FilePath) (nodes : Nat)
  | fileIgnored (file : FilePath)
  | modelWritten (units : Nat) (moduleDir : FilePath)
deriving DecidableEq

namespace Event

def level : Event → Level
  | duplicateDropped _ => .debug
  | leavesShared _ => .info
  | orphanSkipped _ => .warn
  | boundOmitted .. => .warn
  | fileParsed .. => .info
  | fileIgnored _ => .warn
  | modelWritten .. => .info

def message : Event → String
  | duplicateDropped _ => "dropping duplicate VSS path"
  | leavesShared _ => "ambiguous leaf names, generating nested types"
  | orphanSkipped _ => "ambiguous node has no top-level ancestor to nest into, skipping"
  | boundOmitted .. => "bound does not fit the value type, omitting it"
  | fileParsed .. => "parsed VSS definitions"
  | fileIgnored _ => "ignoring file with unsupported extension"
  | modelWritten .. => "generated VSS models"

def renderSet (texts : List String) : String :=
  "\x7b" ++ ", ".intercalate (texts.map Text.Literal.quote) ++ "\x7d"

def fields : Event → List (String × String)
  | duplicateDropped path => [("path", path.text)]
  | leavesShared leaves => [("collisions", renderSet (leaves.map Segment.text))]
  | orphanSkipped path => [("path", path.text)]
  | boundOmitted path bound raw type =>
    [("path", path.text), ("bound", bound.name), ("raw", raw), ("value_type", type.label)]
  | fileParsed file nodes => [("file", file.text), ("nodes", toString nodes)]
  | fileIgnored file => [("file", file.text)]
  | modelWritten units moduleDir =>
    [("units", toString units), ("module_dir", moduleDir.text)]

end Event

end SignalTree
