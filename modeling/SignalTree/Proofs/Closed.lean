import SignalTree.Proofs.NamedPaths

/-!
Registries without gaps, where every path has its parent. A node lies right below its
structural parent there, and no type is implicit. Where moreover one node lies above all
others and shares its leaf with none, every node has a place (`IsRoot.placed`).
-/
namespace SignalTree.Registry

theorem path_mem_paths {r : Registry} {n : Node} (hn : n ∈ r.nodes) : n.path ∈ r.paths :=
  List.mem_map_of_mem hn

def Closed (r : Registry) : Prop := ∀ p ∈ r.paths, ∀ q ∈ p.parent?, q ∈ r.paths

namespace Closed

variable {r : Registry} (hr : r.Closed)

include hr

theorem mem_paths_of_mem_ancestors {p a : Path} (hp : p ∈ r.paths) (ha : a ∈ p.ancestors) :
    a ∈ r.paths := by
  induction p with
  | root s => simp at ha
  | child p s ih =>
    have hparent := hr _ hp p (Path.parent?_child p s)
    rcases List.mem_cons.mp ha with rfl | ha
    · exact hparent
    · exact ih hparent ha

theorem gap_eq_nil {p : Path} (hp : p ∈ r.paths) : r.gap p = [] := by
  refine List.eq_nil_iff_forall_not_mem.mpr fun a ha => ?_
  exact Registry.not_mem_paths_of_mem_gap ha
    (hr.mem_paths_of_mem_ancestors hp (Registry.mem_ancestors_of_mem_gap ha))

theorem structuralParent?_eq {p : Path} (hp : p ∈ r.paths) : r.structuralParent? p = p.parent? := by
  cases p with
  | root s => rfl
  | child p s =>
    have hparent := contains_iff.mpr (hr _ hp p (Path.parent?_child p s))
    rw [structuralParent?_of_parent? r (Path.parent?_child p s), if_pos hparent, Path.parent?_child]

theorem mem_paths_of_isNested {p : Path} (hp : (Hierarchy.ofRegistry r).IsNested p) :
    p ∈ r.paths := by
  obtain ⟨n, hn, -, rfl | hgap⟩ := hp
  · exact path_mem_paths hn
  · change p ∈ r.gap n.path at hgap
    rw [hr.gap_eq_nil (path_mem_paths hn)] at hgap
    cases hgap

theorem of_mem_keys {p k : Path} (hk : k ∈ (Hierarchy.ofRegistry r).keys p) :
    k ∈ r.paths ∧ k.parent? = some p := by
  rcases Hierarchy.mem_keys_iff.mp hk with ⟨hu, hs⟩ | ⟨-, hn⟩
  · have hmem : k ∈ r.paths := (Hierarchy.isUnit_iff.mp hu).1
    exact ⟨hmem, (hr.structuralParent?_eq hmem).symm.trans hs⟩
  · obtain ⟨hpar, hnested⟩ := Hierarchy.mem_nestedKeys_iff.mp hn
    exact ⟨hr.mem_paths_of_isNested hnested, hpar⟩

theorem explicit {units : List TypeUnit} (hu : r.units.result = .ok units) {u : TypeUnit}
    (hm : u ∈ units) {t : TypeDecl} (ht : t ∈ u.types) : t.implicit = false := by
  obtain ⟨q, hq, rfl⟩ := (mem_types_of_mem_units hu hm).mp ht
  refine Hierarchy.explicit_declAt.mpr ?_
  rcases hq with rfl | ⟨hnested, -⟩
  · exact (Hierarchy.isUnit_iff.mp (exists_declAt_of_mem_units hu hm).1).1
  · exact hr.mem_paths_of_isNested hnested

end Closed

/-- One node lies above all others, and none of them has its leaf. -/
structure IsRoot (r : Registry) (root : Node) : Prop where
  mem : root ∈ r.nodes
  above : ∀ n ∈ r.nodes, n ≠ root → root.path ∈ n.path.ancestors
  alone : ∀ n ∈ r.nodes, n ≠ root → n.path.leaf ≠ root.path.leaf

namespace IsRoot

variable {r : Registry} {root : Node} {units : List TypeUnit} (hroot : r.IsRoot root)

include hroot

theorem isUnit : (Hierarchy.ofRegistry r).isUnit root.path = true := by
  refine Hierarchy.isUnit_iff.mpr ⟨path_mem_paths hroot.mem, ?_⟩
  refine (Hierarchy.isTopLevel_ofRegistry hroot.mem).mpr fun n hn hleaf => ?_
  exact Decidable.byContradiction fun hne => hroot.alone n hn hne hleaf

theorem exists_owner? {n : Node} (hn : n ∈ r.nodes) (hne : n ≠ root) :
    ∃ o, (Hierarchy.ofRegistry r).owner? n.path = some o :=
  Option.isSome_iff_exists.mp
    (List.find?_isSome.mpr ⟨root.path, hroot.above n hn hne, hroot.isUnit⟩)

theorem isOrphan_eq_false {n : Node} (hn : n ∈ r.nodes) :
    (Hierarchy.ofRegistry r).isOrphan n = false := by
  by_cases hne : n = root
  · rw [hne, Hierarchy.isOrphan, (Hierarchy.isUnit_iff.mp hroot.isUnit).2]
    rfl
  · obtain ⟨o, ho⟩ := hroot.exists_owner? hn hne
    rw [Hierarchy.isOrphan, ho]
    exact Bool.and_false _

theorem orphanSkipped_not_mem (hu : r.units.result = .ok units) (p : Path) :
    .orphanSkipped p ∉ r.units.log := by
  have hnone : r.nodes.filter (Hierarchy.ofRegistry r).isOrphan = [] :=
    List.filter_eq_nil_iff.mpr fun n hn => by simp [hroot.isOrphan_eq_false hn]
  rw [(units_eq_ok hu).2.2, hnone]
  split <;> simp

theorem exists_type (hu : r.units.result = .ok units) {n : Node} (hn : n ∈ r.nodes) :
    ∃ u ∈ units, ∃ t ∈ u.types, t.node = n := by
  have hplaced : ¬∀ u ∈ units, ∀ t ∈ u.types, t.path ≠ n.path := by
    rw [forall_path_ne_iff hu hn]
    rintro ⟨ht, ho⟩
    have := hroot.isOrphan_eq_false hn
    simp [Hierarchy.isOrphan, ht, ho] at this
  simp only [not_forall, not_not] at hplaced
  obtain ⟨u, hm, t, ht, hp⟩ := hplaced
  refine ⟨u, hm, t, ht, ?_⟩
  obtain ⟨q, -, rfl⟩ := (mem_types_of_mem_units hu hm).mp ht
  rw [Hierarchy.path_declAt] at hp
  subst hp
  exact Hierarchy.nodeAt_of_mem hn

theorem exists_parent (hu : r.units.result = .ok units) {u : TypeUnit} (hm : u ∈ units)
    (hne : u.decl.path ≠ root.path) : ∃ ref, u.parent = some ref := by
  obtain ⟨n, hn, -, rfl⟩ := (mem_units hu).mp hm
  obtain ⟨o, ho⟩ := hroot.exists_owner? hn fun e => hne (congrArg Node.path e)
  exact ⟨_, congrArg (Option.map _) ho⟩

theorem placed (hr : r.Closed) (hu : r.units.result = .ok units) :
    (∀ p, .orphanSkipped p ∉ r.units.log) ∧
      (∀ n ∈ r.nodes, ∃ u ∈ units, ∃ t ∈ u.types, t.node = n ∧ t.implicit = false) ∧
      ∀ u ∈ units, u.decl.path ≠ root.path → ∃ ref, u.parent = some ref := by
  refine ⟨hroot.orphanSkipped_not_mem hu, fun n hn => ?_, fun u hm => hroot.exists_parent hu hm⟩
  obtain ⟨u, hm, t, ht, rfl⟩ := hroot.exists_type hu hn
  exact ⟨u, hm, t, ht, rfl, hr.explicit hu hm ht⟩

end IsRoot

end SignalTree.Registry
