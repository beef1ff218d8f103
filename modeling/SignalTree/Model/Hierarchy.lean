import SignalTree.Model.Basic
import SignalTree.Model.Name
import SignalTree.Registry

/-!
Where the types of a registry go. A node with a leaf of its own becomes a unit. A
node that shares its leaf with others is nested in the type of the nearest unit
above it, inside one implicit type for every segment between its structural
parent and itself that no definition mentions.
-/
namespace SignalTree

/-- The links of the registry are kept beside it, since every scope looks its
members up in them. -/
structure Hierarchy where
  registry : Registry
  shared : List Segment
  links : List (Path × Node)
  links_eq : links = registry.links

/-- A place in a scope: a reference to a unit, or a type declared in it. -/
inductive Slot where
  | unit (path : Path)
  | nested (node : Node) (implicit : Bool) (slots : List Slot)

namespace Hierarchy

def of (registry : Registry) (shared : List Segment) : Hierarchy :=
  ⟨registry, shared, registry.links, rfl⟩

def ofRegistry (registry : Registry) : Hierarchy := of registry registry.sharedLeaves

def isTopLevel (h : Hierarchy) (p : Path) : Bool := !h.shared.contains p.leaf

/-- The nearest registered proper ancestor that is a unit. -/
def owner? (h : Hierarchy) (p : Path) : Option Path :=
  p.ancestors.find? fun a => h.registry.contains a && h.isTopLevel a

/-- The nodes whose structural parent is the given path, in registry order. -/
def childrenOf (h : Hierarchy) (p : Path) : List Node :=
  h.links.filterMap fun (parent, node) => if parent = p then some node else none

/-- Where a member of a scope goes: to its own place, or, with a shared leaf, to
the first step from the scope towards it. -/
def slotPath (h : Hierarchy) (scope member : Path) : Path :=
  if h.isTopLevel member then member else (Path.stepBelow? scope member).getD member

/-- Members by their slots, which come in the order of their first members. -/
def groups (h : Hierarchy) (scope : Path) (members : List Node) : List (Path × List Node) :=
  let placed := members.map fun n => (h.slotPath scope n.path, n)
  (placed.map Prod.fst).eraseDups.map fun p =>
    (p, (placed.filter (·.1 == p)).map Prod.snd)

/-- The member that a slot declares itself: the only one in it, and right there. -/
def declared? (path : Path) : List Node → Option Node
  | [member] => if member.path = path then some member else none
  | _ => none

/-- The slots of a scope. Around members that no slot declares lies an implicit
type. `levels` bounds the depth of the members below the scope. -/
def slotsFor (h : Hierarchy) : (levels : Nat) → Path → List Node → List Slot
  | 0, _, _ => []
  | levels + 1, scope, members =>
    (h.groups scope members).map fun (path, group) =>
      match declared? path group with
      | some member =>
        if h.isTopLevel path then .unit path
        else .nested member false (h.slotsFor levels path (h.childrenOf path))
      | none => .nested (.plainBranch path) true (h.slotsFor levels path group)

/-- The slots of the type at a path. No member lies deeper than the registry. -/
def slots (h : Hierarchy) (p : Path) : List Slot :=
  h.slotsFor (h.registry.depth - p.depth) p (h.childrenOf p)

/-- The ancestors of a node from its structural parent up to, and without, its
owner: the types that lead to it inside the owner, innermost first. -/
def trail (h : Hierarchy) (p : Path) : List Path :=
  let owner := h.owner? p
  (p.ancestors.dropWhile (!h.registry.contains ·)).takeWhile (owner != some ·)

def parentRef? (h : Hierarchy) (p : Path) : Option ParentRef :=
  (h.owner? p).map fun owner => ⟨owner.typeName, (h.trail p).reverse.map Path.typeName⟩

end Hierarchy

namespace Slot

def path : Slot → Path
  | unit p => p
  | nested node _ _ => node.path

def ref (s : Slot) : ChildRef where
  kind := match s with
    | unit _ => .unit
    | nested .. => .nested
  name := s.path.typeName
  path := s.path

mutual

def decl? : Slot → Option TypeDecl
  | unit _ => none
  | nested node implicit slots =>
    some ⟨node.path.typeName, node, slots.map ref, declsOf slots, implicit⟩

def declsOf : List Slot → List TypeDecl
  | [] => []
  | s :: rest =>
    match s.decl? with
    | some d => d :: declsOf rest
    | none => declsOf rest

end

mutual

/-- The paths of a slot and of all slots in it, each before those in it. -/
def paths : Slot → List Path
  | unit p => [p]
  | nested node _ slots => node.path :: pathsOf slots

def pathsOf : List Slot → List Path
  | [] => []
  | s :: rest => s.paths ++ pathsOf rest

end

end Slot

namespace Hierarchy

def unit (h : Hierarchy) (n : Node) : TypeUnit where
  decl := {
    name := n.path.typeName
    node := n
    children := (h.slots n.path).map Slot.ref
    nested := Slot.declsOf (h.slots n.path)
    implicit := false }
  parent := h.parentRef? n.path

def parentPaths (h : Hierarchy) (p : Path) : List Path :=
  match h.owner? p with
  | some owner => h.trail p ++ [owner]
  | none => []

/-- All paths that the unit of a node names: those of its scope, its own and those
that lead to its parent. -/
def namedPaths (h : Hierarchy) (p : Path) : List Path :=
  Slot.pathsOf (h.slots p) ++ p :: h.parentPaths p

end Hierarchy

end SignalTree
