import SignalTree.Model.Hierarchy
import SignalTree.Run.Outcome

/-! Registries and their units, with what can go wrong and what is reported. -/
namespace SignalTree

/-- Definitions after the first one of a path are dropped and reported. -/
def Registry.register (nodes : List Node) : Outcome Registry :=
  ⟨(repeats [] nodes).map .duplicateDropped, .ok (ofNodes nodes)⟩

def requireNames (paths : List Path) : Except Fault PUnit :=
  match paths.find? (!·.isNameable) with
  | some p => .error (.invariant (.unnameable p))
  | none => .ok ⟨⟩

def Path.typeName? (p : Path) : Except Fault String := do
  requireNames [p]
  return p.typeName

namespace Hierarchy

def checkedParentRef (h : Hierarchy) (p : Path) : Except Fault (Option ParentRef) := do
  requireNames (h.parentPaths p)
  return h.parentRef? p

def checkedUnit (h : Hierarchy) (n : Node) : Except Fault TypeUnit := do
  requireNames (h.namedPaths n.path)
  return h.unit n

/-- Refuses a name that a unit before has; `taken` holds their names and paths. -/
def requireFresh (taken : List (String × Path)) (name : String) (p : Path) :
    Except Fault PUnit :=
  match taken.lookup name with
  | some other => .error (.invariant (.unitClash p other name))
  | none => .ok ⟨⟩

/-- The units of some nodes. A node that shares its leaf and has no unit above it
has no place in the model. -/
def unitsFrom (h : Hierarchy) (taken : List (String × Path)) :
    List Node → Outcome (List TypeUnit)
  | [] => pure []
  | n :: rest =>
    if h.isTopLevel n.path then do
      let unit ← h.checkedUnit n
      requireFresh taken unit.decl.name n.path
      return unit :: (← h.unitsFrom ((unit.decl.name, n.path) :: taken) rest)
    else do
      if (h.owner? n.path).isNone then Outcome.report [.orphanSkipped n.path]
      h.unitsFrom taken rest

end Hierarchy

def Registry.units (r : Registry) : Outcome (List TypeUnit) := do
  let h := Hierarchy.ofRegistry r
  unless h.shared.isEmpty do Outcome.report [.leavesShared h.shared]
  h.unitsFrom [] r.nodes

end SignalTree
