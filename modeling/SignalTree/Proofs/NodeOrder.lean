import SignalTree.Proofs.Registering
import SignalTree.Proofs.Reordering
import SignalTree.Proofs.SamePaths

/-!
Nodes in another order. Scopes hold the same keys in all orders (`Agrees.perm_keys`), so types
are reordered at most (`reordered_declAt`), and the two runs end alike (`units_of_perm`).
-/
namespace SignalTree

namespace Hierarchy

variable {h h' : Hierarchy}

/-- Two hierarchies over the same nodes, that take the same leaves for shared. -/
structure Agrees (h h' : Hierarchy) : Prop extends SamePaths h h' where
  nodes : h.registry.nodes.Perm h'.registry.nodes

theorem agrees_of_perm {r r' : Registry} (hperm : r.nodes.Perm r'.nodes) :
    (ofRegistry r).Agrees (ofRegistry r') where
  toSamePaths := samePaths_of_perm (hperm.map Node.path)
  nodes := hperm

namespace Agrees

variable (ha : h.Agrees h')

include ha

theorem nodeAt_eq (p : Path) : h.nodeAt p = h'.nodeAt p := by
  by_cases hp : p ∈ h.registry.paths
  · obtain ⟨n, hn, rfl⟩ := mem_paths.mp hp
    rw [nodeAt_of_mem hn, nodeAt_of_mem (ha.nodes.mem_iff.mp hn)]
  · rw [nodeAt_of_not_mem hp, nodeAt_of_not_mem (mt ha.paths.mem_iff.mpr hp)]

theorem perm_keys (p : Path) : (h.keys p).Perm (h'.keys p) :=
  (List.perm_ext_iff_of_nodup (nodup_keys p) (nodup_keys p)).mpr fun _ => ha.mem_keys_iff

theorem perm_nestedKeys (p : Path) : (h.nestedKeys p).Perm (h'.nestedKeys p) := by
  rw [nestedKeys, nestedKeys, ha.isUnit_eq]
  exact (ha.perm_keys p).filter _

theorem reordered_declAt (p : Path) : (h.declAt p).Reordered (h'.declAt p) := by
  induction hl : h.registry.depth - p.depth using Nat.strong_induction_on generalizing p with
  | _ levels ih =>
    refine .of_pairsOff rfl (ha.nodeAt_eq p) ?_ ?_ ?_
    · change (!h.registry.contains p) = !h'.registry.contains p
      rw [ha.contains_eq]
    · rw [declAt_children, declAt_children, ha.refAt_eq]
      exact (ha.perm_keys p).map _
    · rw [declAt_nested, declAt_nested]
      refine .of_perm_map (ha.perm_nestedKeys p) fun k hk => ?_
      have hdepth := Path.depth_of_parent?_eq (Hierarchy.mem_nestedKeys_iff.mp hk).1
      have hbound := depth_lt_of_mem_keys (List.mem_of_mem_filter hk)
      exact ih (h.registry.depth - k.depth) (by omega) k rfl

theorem reordered_unit {n : Node} (hn : n ∈ h.registry.nodes) :
    (h.unit n).Reordered (h'.unit n) where
  decl := by
    rw [unit_decl hn, unit_decl (ha.nodes.mem_iff.mp hn)]
    exact ha.reordered_declAt n.path
  parent := ha.parentRef?_eq n.path

theorem perm_topLevel : (h.registry.nodes.filter fun n => h.isTopLevel n.path).Perm
    (h'.registry.nodes.filter fun n => h'.isTopLevel n.path) := by
  rw [ha.isTopLevel_eq]
  exact ha.nodes.filter _

theorem pairsOff_units : PairsOff TypeUnit.Reordered
    ((h.registry.nodes.filter fun n => h.isTopLevel n.path).map h.unit)
    ((h'.registry.nodes.filter fun n => h'.isTopLevel n.path).map h'.unit) :=
  .of_perm_map ha.perm_topLevel fun _ hn => ha.reordered_unit (List.mem_of_mem_filter hn)

end Agrees

end Hierarchy

namespace Registry

variable {r r' : Registry}

theorem units_isOk_iff_of_perm (hperm : r.nodes.Perm r'.nodes) :
    (∃ units, r.units.result = .ok units) ↔ ∃ units, r'.units.result = .ok units :=
  units_isOk_iff_of_paths (hperm.map Node.path)

theorem pairsOff_of_perm (hperm : r.nodes.Perm r'.nodes) {units units' : List TypeUnit}
    (hu : r.units.result = .ok units) (hu' : r'.units.result = .ok units') :
    PairsOff TypeUnit.Reordered units units' := by
  rw [(units_eq_ok hu).1, (units_eq_ok hu').1]
  exact (Hierarchy.agrees_of_perm hperm).pairsOff_units

/-- The model does not depend on the order of its nodes: there is one for both orders or for
neither, with the same units but for order, and a module is rendered from both or from
neither. -/
theorem units_of_perm {nodes nodes' : List Node} (hpaths : (nodes.map Node.path).Nodup)
    (hperm : nodes.Perm nodes') :
    ((∃ units, (register nodes >>= Registry.units).result = .ok units) ↔
        ∃ units', (register nodes' >>= Registry.units).result = .ok units') ∧
      ∀ units units', (register nodes >>= Registry.units).result = .ok units →
        (register nodes' >>= Registry.units).result = .ok units' →
        PairsOff TypeUnit.Reordered units units' ∧
          ∀ module, (∃ files, (Source.renderModule units module).result = .ok files) ↔
            ∃ files, (Source.renderModule units' module).result = .ok files := by
  have hpaths' : (nodes'.map Node.path).Nodup := (hperm.map Node.path).nodup_iff.mp hpaths
  have hnodes : (ofNodes nodes).nodes.Perm (ofNodes nodes').nodes := by
    rwa [nodes_ofNodes hpaths, nodes_ofNodes hpaths']
  rw [register_eq hpaths, register_eq hpaths', pure_bind, pure_bind]
  refine ⟨units_isOk_iff_of_perm hnodes, fun units units' hu hu' => ?_⟩
  have hpairs := pairsOff_of_perm hnodes hu hu'
  refine ⟨hpairs, fun module => Source.renders_iff_of_pairsOff module hpairs ?_ ?_⟩
  · exact fun u hm => (isNamed_of_mem_units hu hm).types
  · exact fun u hm => (isNamed_of_mem_units hu' hm).types

theorem units_of_reversedSample : ∃ units units',
    (register sample.nodes >>= Registry.units).result = .ok units ∧
      (register sample.nodes.reverse >>= Registry.units).result = .ok units' ∧ units ≠ [] ∧
      PairsOff TypeUnit.Reordered units units' ∧
      ∀ module, (∃ files, (Source.renderModule units module).result = .ok files) ↔
        ∃ files, (Source.renderModule units' module).result = .ok files := by
  obtain ⟨hiff, hpairs⟩ := units_of_perm sample.nodup sample.nodes.reverse_perm.symm
  have hnonempty : (register sample.nodes >>= Registry.units).result.toOption.any (!·.isEmpty) =
      true := by decide +kernel
  cases hu : (register sample.nodes >>= Registry.units).result with
  | error e =>
    rw [hu] at hnonempty
    cases hnonempty
  | ok units =>
    obtain ⟨units', hu'⟩ := hiff.mp ⟨units, hu⟩
    refine ⟨units, units', rfl, hu', ?_, hpairs units units' hu hu'⟩
    rintro rfl
    rw [hu] at hnonempty
    cases hnonempty

end Registry

end SignalTree
