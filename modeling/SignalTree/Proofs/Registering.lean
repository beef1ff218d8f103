import Mathlib.Data.List.Nodup
import SignalTree.Model.Units

/-! Registering nodes: paths that differ are all kept, in their order, and nothing is
reported. -/
namespace SignalTree.Registry

theorem nodes_foldl_add {r : Registry} {nodes : List Node}
    (h : (r.paths ++ nodes.map Node.path).Nodup) :
    (nodes.foldl add r).nodes = r.nodes ++ nodes := by
  induction nodes generalizing r with
  | nil => simp
  | cons n nodes ih =>
    have hn : n.path ∉ r.paths := fun hmem =>
      (List.nodup_append'.mp h).2.2 hmem (by simp)
    have hnodes := nodes_add_of_not_mem hn
    have hpaths : (r.add n).paths = r.paths ++ [n.path] := by simp [paths, hnodes]
    rw [List.foldl_cons, ih (by simpa [hpaths] using h), hnodes, List.append_assoc,
      List.singleton_append]

theorem nodes_ofNodes {nodes : List Node} (h : (nodes.map Node.path).Nodup) :
    (ofNodes nodes).nodes = nodes :=
  nodes_foldl_add h

theorem repeats_eq_nil {seen : List Path} {nodes : List Node}
    (h : (seen ++ nodes.map Node.path).Nodup) : repeats seen nodes = [] := by
  induction nodes generalizing seen with
  | nil => rfl
  | cons n nodes ih =>
    rw [List.map_cons] at h
    have hperm := List.perm_middle.nodup_iff.mp h
    have hn : n.path ∉ seen := fun hmem =>
      (List.nodup_cons.mp hperm).1 (List.mem_append_left _ hmem)
    rw [repeats, if_neg (by simpa using hn)]
    exact ih hperm

theorem register_eq {nodes : List Node} (h : (nodes.map Node.path).Nodup) :
    register nodes = pure (ofNodes nodes) := by
  rw [register, repeats_eq_nil (by simpa using h)]
  rfl

end SignalTree.Registry
