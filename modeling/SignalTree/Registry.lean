import SignalTree.Node.Basic

/-! Registries: nodes with distinct paths, in the order of their definition. -/
namespace SignalTree

structure Registry where
  nodes : List Node
  nodup : (nodes.map Node.path).Nodup

namespace Registry

def empty : Registry := ⟨[], by simp⟩

def paths (r : Registry) : List Path := r.nodes.map Node.path

def contains (r : Registry) (p : Path) : Bool := r.nodes.any (·.path == p)

@[simp] theorem contains_iff {r : Registry} {p : Path} : r.contains p = true ↔ p ∈ r.paths := by
  simp [contains, paths]

def get? (r : Registry) (p : Path) : Option Node := r.nodes.find? (·.path == p)

/-- The first definition of a path stays. -/
def add (r : Registry) (n : Node) : Registry :=
  if h : r.contains n.path then r
  else
    ⟨r.nodes ++ [n], by
      have : n.path ∉ r.nodes.map Node.path := by simpa [paths] using h
      simp only [List.map_append, List.map_cons, List.map_nil]
      rw [List.nodup_append]
      refine ⟨r.nodup, by simp, ?_⟩
      intro a ha b hb
      simp at hb
      rintro rfl
      exact this (hb ▸ ha)⟩

theorem nodes_add_of_mem {r : Registry} {n : Node} (h : n.path ∈ r.paths) : r.add n = r := by
  simp [add, h]

theorem nodes_add_of_not_mem {r : Registry} {n : Node} (h : n.path ∉ r.paths) :
    (r.add n).nodes = r.nodes ++ [n] := by
  simp [add, h]

def ofNodes (nodes : List Node) : Registry := nodes.foldl add empty

def repeats (seen : List Path) : List Node → List Path
  | [] => []
  | n :: rest =>
    if seen.contains n.path then n.path :: repeats seen rest
    else repeats (n.path :: seen) rest

/-- The nearest registered proper ancestor of a path. -/
def structuralParent? (r : Registry) (p : Path) : Option Path := p.ancestors.find? r.contains

/-- Every registered node with its structural parent, if there is one. -/
def links (r : Registry) : List (Path × Node) :=
  r.nodes.filterMap fun n => (r.structuralParent? n.path).map (·, n)

/-- Leaves that several paths end in, in order. -/
def sharedLeaves (r : Registry) : List Segment :=
  let leaves := r.paths.map Path.leaf
  (leaves.filter (1 < leaves.count ·)).eraseDups.mergeSort Segment.le

def depth (r : Registry) : Nat := (r.paths.map Path.depth).foldl max 0

end Registry

end SignalTree
