import SignalTree.Datatype.Literal
import SignalTree.Json.Printer
import SignalTree.Model.Basic

/-! The model as JSON, with all that is known of every unit and nested type. -/
namespace SignalTree

def Scalar.tag : Scalar → String
  | string => "string"
  | s => s.rustType

def ValueType.toJson : ValueType → Json
  | scalar s => .object [("kind", .string "scalar"), ("of", .string s.tag)]
  | array s => .object [("kind", .string "array"), ("of", .string s.tag)]
  | untyped => .object [("kind", .string "any")]

def Property.toJson (p : Property) : Json := .object [
  ("key", .string p.key.name),
  ("value", .string p.value),
  ("value_type", p.type.toJson)]

def Properties.toJson (p : Properties) : Json := .array (p.toList.map Property.toJson)

def Node.toJson (n : Node) : Json := .object [
  ("path", .string n.path.text),
  ("properties", n.properties.toJson)]

def ChildKind.name : ChildKind → String
  | unit => "unit"
  | nested => "nested"

def ChildRef.toJson (c : ChildRef) : Json := .object [
  ("kind", .string c.kind.name),
  ("name", .string c.name),
  ("path", .string c.path.text)]

def ParentRef.toJson (r : ParentRef) : Json := .object [
  ("unit", .string r.unit),
  ("nested", .array (r.nested.map .string))]

namespace TypeDecl

mutual

def jsonMembers : TypeDecl → List (String × Json)
  | ⟨name, node, children, nested, _⟩ => [
    ("name", .string name),
    ("node", node.toJson),
    ("children", .array (children.map ChildRef.toJson)),
    ("nested", .array (jsonItems nested))]

def jsonItems : List TypeDecl → List Json
  | [] => []
  | d :: rest => .object (d.jsonMembers ++ [("implicit", .bool d.implicit)]) :: jsonItems rest

end

end TypeDecl

/-- A unit is never implicit; it may have a parent instead. -/
def TypeUnit.toJson (u : TypeUnit) : Json :=
  .object (u.decl.jsonMembers ++ [("parent", (u.parent.map ParentRef.toJson).getD .null)])

def renderModel (units : List TypeUnit) : String :=
  (Json.array (units.map TypeUnit.toJson)).renderIndented ""

end SignalTree
