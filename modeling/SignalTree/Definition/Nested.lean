import SignalTree.Definition.Defect
import SignalTree.Json.Printer
import SignalTree.Json.Reader
import SignalTree.Node.Record

/-!
The nested layout: a JSON object per node, which holds its attributes and, under
`children`, the objects of the nodes below it. Entries are read parents first, in
the order of the document.
-/
namespace SignalTree.Definition.Nested

def rootKey : String := "Vehicle"
def childrenKey : String := "children"

/-- Values that are not text keep their JSON spelling. -/
def attributeText : Json → String
  | .null => ""
  | .string s => s
  | value => value.render

def readRecord (path : Path) (members : List (String × Json)) : Except Defect Record :=
  match Record.ofAttributes? path
      fun a => ((Json.member? a.name members).map attributeText).getD "" with
  | some record => .ok record
  | none => .error (.missingType path)

/-- Attributes may stray among the children; they are no nodes. -/
def isReserved (reserved : List Attribute) (key : String) : Bool :=
  key == childrenKey || reserved.any (·.name == key)

mutual

def readEntry (reserved : List Attribute) (path : Path) : Json → Except Defect (List Record)
  | .object members => do
    let record ← readRecord path members
    return record :: (← readChildren reserved path members)
  | _ => .error (.entryNotObject path)

def readChildren (reserved : List Attribute) (path : Path) :
    List (String × Json) → Except Defect (List Record)
  | [] => .ok []
  | (key, value) :: rest =>
    if key == childrenKey then
      match value with
      | .null => .ok []
      | .object children => readEntries reserved path children
      | _ => .error (.childrenNotObject path)
    else readChildren reserved path rest

def readEntries (reserved : List Attribute) (path : Path) :
    List (String × Json) → Except Defect (List Record)
  | [] => .ok []
  | (key, value) :: rest =>
    if isReserved reserved key then readEntries reserved path rest
    else do
      let records ← readEntry reserved (path ++ Path.ofText key) value
      return records ++ (← readEntries reserved path rest)

end

/-- The records of a document, which has the whole tree under the root key. -/
def readDocument (reserved : List Attribute) (document : Json) : Except Defect (List Record) :=
  match document.members?.bind (Json.member? rootKey) with
  | none => .error .missingRoot
  | some root =>
    match root with
    | .object _ => readEntry reserved (.ofText rootKey) root
    | _ => .error .rootNotObject

def read (reserved : List Attribute) (source : String) : Except Defect (List Record) :=
  match Json.read? source with
  | some document => readDocument reserved document
  | none => .error .malformedJson

end SignalTree.Definition.Nested
