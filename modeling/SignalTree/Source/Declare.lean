import SignalTree.Model.Basic
import SignalTree.Run.Event
import SignalTree.Source.Item

/-!
The items that declare a type. The types nested in a unit stand beside it in its
file; the types nested in any other type stand in a module named for that type,
beside the type itself.
-/
namespace SignalTree.Source

/-- The documentation of a node: the description, then the comment, with an empty
line between them. -/
def nodeDocs (p : Properties) : List String :=
  let linesOf (text : String) : List String := (Text.lines text.toList).map String.ofList
  let description := (p.description.map linesOf).getD []
  let comment := (p.comment.map linesOf).getD []
  if p.description.isSome && p.comment.isSome then description ++ "" :: comment
  else description ++ comment

def implicitNote : String :=
  "Implicit branch: this path has no entry of its own in the definitions."

def textConstant (name value : String) : Constant :=
  ⟨name, "&'static str", Text.Literal.quote value⟩

def boundConstant? (type : ValueType) (bound : BoundKind) (raw : String) : Option Constant := do
  return ⟨bound.name, ← type.boundType?, ← type.boundLiteral? raw⟩

def bounds (p : Properties) : List (BoundKind × String) :=
  (p.min.map fun b => (BoundKind.min, b.value)).toList ++
    (p.max.map fun b => (BoundKind.max, b.value)).toList

def boundConstants (n : Node) : List Constant :=
  (bounds n.properties).filterMap fun (bound, raw) => boundConstant? n.valueType bound raw

/-- The bounds that do not fit are left out, with a word about each. -/
def omittedBounds (n : Node) : List Event :=
  (bounds n.properties).filterMap fun (bound, raw) =>
    match boundConstant? n.valueType bound raw with
    | some _ => none
    | none => some (.boundOmitted n.path bound raw n.valueType)

def constants (n : Node) : List Constant :=
  let p := n.properties
  let optional (name : String) (value : Option String) : List Constant :=
    (value.map (textConstant name)).toList
  [textConstant "VSS_PATH" n.path.text, textConstant "UUID" p.uuid,
    textConstant "NODE_KIND" p.kind] ++
  optional "DESCRIPTION" p.description ++ optional "COMMENT" p.comment ++
  optional "UNIT" p.unit ++ optional "DATATYPE" p.datatype ++
  boundConstants n

/-- The module with the types nested in a type. -/
def nestedModule (name : String) : String := moduleName name

/-- The type of a child, seen from its owner. Units lie in modules of the index. -/
def childType (isUnit : Bool) (depth : Nat) (owner : String) (c : ChildRef) : TypePath :=
  match c.kind with
  | .unit => ⟨List.replicate depth TypePath.upward ++ [moduleName c.name], c.name⟩
  | .nested => ⟨if isUnit then [] else [nestedModule owner], c.name⟩

/-- The parent of a unit, seen from the unit's file: up to the index, into the file
of the owner, through the modules of the types that lead to the parent. -/
def parentPath (r : ParentRef) : TypePath :=
  ⟨TypePath.upward :: moduleName r.unit :: r.nested.dropLast.map nestedModule, r.typeName⟩

def structItem (isUnit : Bool) (depth : Nat) (parent : Option TypePath) (d : TypeDecl) :
    StructItem where
  docs := nodeDocs d.node.properties ++ if d.implicit then [implicitNote] else []
  name := d.name
  value := d.node.valueType
  fields := d.children.map fun c => ⟨fieldName c.path, childType isUnit depth d.name c⟩
  constants := constants d.node
  depth
  parent

mutual

/-- A nested type and the module of the types in it. -/
def nestedItems (depth : Nat) (parent : TypePath) (d : TypeDecl) : List Item :=
  match d with
  | ⟨name, node, children, nested, implicit⟩ =>
    .struct (structItem false depth (some parent) ⟨name, node, children, nested, implicit⟩) ::
      if nested.isEmpty then []
      else
        [.module (nestedModule name)
          (nestedItemsOf (depth + 1) ⟨[TypePath.upward], name⟩ nested)]

def nestedItemsOf (depth : Nat) (parent : TypePath) : List TypeDecl → List Item
  | [] => []
  | d :: rest => nestedItems depth parent d ++ nestedItemsOf depth parent rest

end

/-- All items of the file of a unit, one module below the index. -/
def unitItems (u : TypeUnit) : List Item :=
  .struct (structItem true 1 (u.parent.map parentPath) u.decl) ::
    nestedItemsOf 1 ⟨[], u.decl.name⟩ u.decl.nested

def generatedNote : String := "// @generated by vss-codegen from VSS definitions. Do not edit."

def unitCode (u : TypeUnit) : List Code :=
  [.line generatedNote, .line ("//! `" ++ u.decl.path.text ++ "`"), .blank] ++
    Code.spaced (Item.codesOf (unitItems u))

def unitEvents (u : TypeUnit) : List Event := u.types.flatMap fun d => omittedBounds d.node

end SignalTree.Source
