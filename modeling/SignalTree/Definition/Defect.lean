import SignalTree.Path

/-! What can be wrong with the text of a definition file. -/
namespace SignalTree

inductive Defect where
  | malformedJson
  | missingRoot
  | rootNotObject
  | childrenNotObject (path : Path)
  | entryNotObject (path : Path)
  | missingType (path : Path)
  | headerWithoutColon (header : String)
  | headerWithoutPath (header : String)
deriving DecidableEq

namespace Defect

def message : Defect → String
  | malformedJson => "malformed JSON: the text is no JSON value"
  | missingRoot => "missing root key 'Vehicle'"
  | rootNotObject => "'Vehicle' is not an object"
  | childrenNotObject path => s!"'children' of '{path}' is not an object"
  | entryNotObject path => s!"entry '{path}' is not an object"
  | missingType path => s!"could not parse 'type' for '{path}'"
  | headerWithoutColon header => s!"expected '<path>:' entry header, found '{header}'"
  | headerWithoutPath header => s!"entry header '{header}' has an empty path"

end Defect

end SignalTree
