import SignalTree.Node.Basic

/-!
The model that is generated: units, one per type with a file of its own, and the
types nested in them.
-/
namespace SignalTree

inductive ChildKind where
  | unit
  | nested
deriving DecidableEq

structure ChildRef where
  kind : ChildKind
  name : String
  path : Path
deriving DecidableEq

/-- A type and the types nested in it. An implicit type stands for a path that
no definition mentions. -/
structure TypeDecl where
  name : String
  node : Node
  children : List ChildRef
  nested : List TypeDecl
  implicit : Bool

/-- The type that has a unit as its child: a unit, or the last of a chain of
types nested in each other inside that unit. -/
structure ParentRef where
  unit : String
  nested : List String
deriving DecidableEq

structure TypeUnit where
  decl : TypeDecl
  parent : Option ParentRef

namespace ParentRef

def typeName (r : ParentRef) : String := r.nested.getLast?.getD r.unit

def text (r : ParentRef) : String := ".".intercalate (r.unit :: r.nested)

end ParentRef

namespace TypeDecl

mutual

def types (d : TypeDecl) : List TypeDecl :=
  match d with
  | ⟨name, node, children, nested, implicit⟩ =>
    ⟨name, node, children, nested, implicit⟩ :: typesOf nested

def typesOf : List TypeDecl → List TypeDecl
  | [] => []
  | d :: rest => d.types ++ typesOf rest

end

def path (d : TypeDecl) : Path := d.node.path

end TypeDecl

def TypeUnit.types (u : TypeUnit) : List TypeDecl := u.decl.types

end SignalTree
