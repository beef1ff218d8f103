import SignalTree.Proofs.NamedPaths

/-!
Registries over the same paths. All that a hierarchy is asked about a path depends on the paths
of the registry alone (`Hierarchy.SamePaths`): not on their order, and not on what their nodes
say. In particular there are units for both registries or for neither
(`units_isOk_iff_of_paths`).
-/
namespace SignalTree

namespace Hierarchy

variable {h h' : Hierarchy}

/-- Two hierarchies over the same paths, that take the same leaves for shared. -/
structure SamePaths (h h' : Hierarchy) : Prop where
  paths : h.registry.paths.Perm h'.registry.paths
  shared : ∀ s, s ∈ h.shared ↔ s ∈ h'.shared

theorem samePaths_of_perm {r r' : Registry} (hperm : r.paths.Perm r'.paths) :
    (ofRegistry r).SamePaths (ofRegistry r') where
  paths := hperm
  shared s := by
    change s ∈ r.sharedLeaves ↔ s ∈ r'.sharedLeaves
    rw [mem_sharedLeaves, mem_sharedLeaves, (hperm.map Path.leaf).count_eq]

theorem isNested_iff_exists {p : Path} : h.IsNested p ↔
    ∃ q ∈ h.registry.paths, h.isTopLevel q = false ∧ (p = q ∨ p ∈ h.registry.gap q) := by
  simp [IsNested, Registry.paths]

namespace SamePaths

variable (hs : h.SamePaths h')

include hs

theorem contains_eq : h.registry.contains = h'.registry.contains := by
  funext p
  rw [Bool.eq_iff_iff, Registry.contains_iff, Registry.contains_iff]
  exact hs.paths.mem_iff

theorem isTopLevel_eq : h.isTopLevel = h'.isTopLevel := by
  funext p
  have hmem := hs.shared p.leaf
  rw [isTopLevel, isTopLevel]
  congr 1
  rw [Bool.eq_iff_iff, List.contains_iff_mem, List.contains_iff_mem]
  exact hmem

theorem isUnit_eq : h.isUnit = h'.isUnit := by
  funext p
  rw [isUnit, isUnit, hs.contains_eq, hs.isTopLevel_eq]

theorem structuralParent?_eq (p : Path) :
    h.registry.structuralParent? p = h'.registry.structuralParent? p := by
  rw [Registry.structuralParent?, Registry.structuralParent?, hs.contains_eq]

theorem gap_eq (p : Path) : h.registry.gap p = h'.registry.gap p := by
  rw [Registry.gap, Registry.gap, hs.contains_eq]

theorem owner?_eq (p : Path) : h.owner? p = h'.owner? p := by
  rw [owner?, owner?, hs.contains_eq, hs.isTopLevel_eq]

theorem trail_eq (p : Path) : h.trail p = h'.trail p := by
  rw [trail, trail, hs.contains_eq, hs.owner?_eq]

theorem parentRef?_eq (p : Path) : h.parentRef? p = h'.parentRef? p := by
  rw [parentRef?, parentRef?, hs.owner?_eq, hs.trail_eq]

theorem parentPaths_eq (p : Path) : h.parentPaths p = h'.parentPaths p := by
  rw [parentPaths, parentPaths, hs.owner?_eq, hs.trail_eq]

theorem isNested_iff (p : Path) : h.IsNested p ↔ h'.IsNested p := by
  simp only [isNested_iff_exists, hs.paths.mem_iff, hs.isTopLevel_eq, hs.gap_eq]

theorem mem_nestedKeys_iff {p k : Path} : k ∈ h.nestedKeys p ↔ k ∈ h'.nestedKeys p := by
  rw [Hierarchy.mem_nestedKeys_iff, Hierarchy.mem_nestedKeys_iff, hs.isNested_iff]

theorem mem_keys_iff {p k : Path} : k ∈ h.keys p ↔ k ∈ h'.keys p := by
  rw [Hierarchy.mem_keys_iff, Hierarchy.mem_keys_iff, hs.isUnit_eq, hs.structuralParent?_eq,
    hs.mem_nestedKeys_iff]

theorem refAt_eq : h.refAt = h'.refAt := by
  funext p
  rw [refAt, refAt, hs.isUnit_eq]

theorem below_iff {p q : Path} : h.Below p q ↔ h'.Below p q := by
  have heq : (fun p q => q ∈ h.nestedKeys p) = fun p q => q ∈ h'.nestedKeys p := by
    funext p q
    exact propext hs.mem_nestedKeys_iff
  rw [Below, Below, heq]

theorem mem_namedPaths_iff {p q : Path} (hp : p ∈ h.registry.paths) :
    q ∈ h.namedPaths p ↔ q ∈ h'.namedPaths p := by
  have hslots : q ∈ Slot.pathsOf (h.slots p) ↔ q ∈ Slot.pathsOf (h'.slots p) := by
    rw [slots_eq_slotsAt hp, slots_eq_slotsAt (hs.paths.mem_iff.mp hp), mem_pathsOf_slotsAt,
      mem_pathsOf_slotsAt]
    exact exists_congr fun s => and_congr (or_congr_right hs.below_iff) hs.mem_keys_iff
  rw [namedPaths, namedPaths, List.mem_append, List.mem_append, hslots, hs.parentPaths_eq]

end SamePaths

theorem unitsFrom_isOk_iff {nodes : List Node} :
    (∃ units, (h.unitsFrom [] nodes).result = .ok units) ↔
      (∀ n ∈ nodes, h.isTopLevel n.path = true → ∀ p ∈ h.namedPaths n.path, p.isNameable = true) ∧
        ((nodes.filter fun n => h.isTopLevel n.path).map fun n => n.path.typeName).Nodup := by
  constructor
  · rintro ⟨units, hu⟩
    refine ⟨isNameable_of_unitsFrom_eq_ok hu, ?_⟩
    obtain ⟨rfl, -, hnodup, -⟩ := unitsFrom_eq_ok hu
    rwa [List.map_map] at hnodup
  · rintro ⟨hnamed, hnames⟩
    exact exists_unitsFrom_eq_ok hnamed hnames (by simp)

end Hierarchy

namespace Registry

variable {r r' : Registry}

theorem units_isOk_iff : (∃ units, r.units.result = .ok units) ↔
    (∀ p ∈ r.paths, (Hierarchy.ofRegistry r).isTopLevel p = true →
      ∀ q ∈ (Hierarchy.ofRegistry r).namedPaths p, q.isNameable = true) ∧
      ((r.paths.filter (Hierarchy.ofRegistry r).isTopLevel).map Path.typeName).Nodup := by
  rw [units_eq, Hierarchy.unitsFrom_isOk_iff, paths, List.forall_mem_map, List.filter_map,
    List.map_map]
  rfl

theorem units_isOk_iff_of_paths (hperm : r.paths.Perm r'.paths) :
    (∃ units, r.units.result = .ok units) ↔ ∃ units, r'.units.result = .ok units := by
  have hs := Hierarchy.samePaths_of_perm hperm
  rw [units_isOk_iff, units_isOk_iff, ← hs.isTopLevel_eq]
  refine and_congr ?_ ((hperm.filter _).map _).nodup_iff
  constructor
  · intro hall p hp ht q hq
    have hp' := hperm.mem_iff.mpr hp
    exact hall p hp' ht q ((hs.mem_namedPaths_iff hp').mpr hq)
  · intro hall p hp ht q hq
    exact hall p (hperm.mem_iff.mp hp) ht q ((hs.mem_namedPaths_iff hp).mp hq)

end Registry

end SignalTree
