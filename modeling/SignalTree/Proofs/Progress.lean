import SignalTree.Proofs.SegmentNames

/-!
Registries that are always rendered. Where every path has its parent, types lie right below
each other and siblings differ in their leaves; if leaves never share a name, no check can
fail, wherever they recur in the tree (`Registry.Complete.renders`).
-/
namespace SignalTree

namespace Registry

/-- A registry without gaps, whose segments have names of their own as fields and as the
modules of types. -/
structure Complete (r : Registry) : Prop where
  closed : ∀ p ∈ r.paths, ∀ q ∈ p.parent?, q ∈ r.paths
  nonempty : ∀ s ∈ r.segments, s.isEmpty = false
  fields : ∀ s ∈ r.segments, ∀ t ∈ r.segments,
    fieldName (.root s) = fieldName (.root t) → s = t
  modules : ∀ s ∈ r.segments, ∀ t ∈ r.segments,
    moduleName (Path.root s).typeName = moduleName (Path.root t).typeName → s = t

namespace Complete

variable {r : Registry} (hr : r.Complete)

include hr

theorem isClosed : r.Closed := hr.closed

theorem segmentsApart : r.SegmentsApart := ⟨hr.nonempty, hr.fields, hr.modules⟩

theorem exists_units : ∃ units, r.units.result = .ok units := hr.segmentsApart.exists_units

theorem nodup_top_level_names :
    ((r.nodes.filter fun n => (Hierarchy.ofRegistry r).isTopLevel n.path).map
      fun n => moduleName n.path.typeName).Nodup :=
  hr.segmentsApart.nodup_top_level_names

theorem namesApart_declAt (p : Path) :
    Source.NamesApart ((Hierarchy.ofRegistry r).declAt p) := by
  refine (hr.segmentsApart.namesApart_declAt_iff p).mpr fun _ _ _ e he himplicit => ?_
  exact absurd (hr.isClosed.of_mem_keys (List.mem_of_mem_filter he)).1 himplicit

theorem name_not_mem_nested {n : Node} (hn : n ∈ r.nodes)
    (ht : (Hierarchy.ofRegistry r).isTopLevel n.path = true) :
    n.path.typeName ∉ ((Hierarchy.ofRegistry r).declAt n.path).nested.map TypeDecl.name := by
  rw [hr.segmentsApart.name_mem_nested_iff (Hierarchy.isUnit_iff.mpr ⟨path_mem_paths hn, ht⟩)]
  rintro ⟨e, he, himplicit, -⟩
  exact himplicit (hr.isClosed.of_mem_keys (List.mem_of_mem_filter he)).1

end Complete

open Source

variable {r : Registry}

/-- A registry without gaps is rendered if no two leaves share a name. -/
theorem Complete.renders (hr : r.Complete) : ∃ units, r.units.result = .ok units ∧
    ∀ module, ∃ files, (renderModule units module).result = .ok files := by
  obtain ⟨units, hu⟩ := hr.exists_units
  have hnames : ∀ u ∈ units, ∀ t ∈ u.types, IsTypeName t.name := fun u hm =>
    (isNamed_of_mem_units hu hm).types
  refine ⟨units, hu, fun module => ⟨_, renderModule_of_ok module ?_ ?_ ?_⟩⟩
  · exact fun u hm => hnames u hm _ (TypeDecl.self_mem_types _)
  · intro u hm
    obtain ⟨n, hn, ht, rfl⟩ := (mem_units hu).mp hm
    have hdecl := Hierarchy.unit_decl (h := Hierarchy.ofRegistry r) hn
    refine checkUnit_of_namesApart (fun t hmem => ⟨?_, hnames _ hm t hmem⟩) ?_
    · rw [TypeUnit.types, hdecl] at hmem
      obtain ⟨q, -, rfl⟩ := Hierarchy.mem_types_declAt.mp hmem
      exact hr.namesApart_declAt q
    · rw [hdecl]
      exact hr.name_not_mem_nested hn ht
  · rw [(units_eq_ok hu).1, List.map_map]
    exact hr.nodup_top_level_names

def completeSample : Registry :=
  .ofNodes (["Vehicle", "Vehicle.Type", "Vehicle.Seat", "Vehicle.Seat.Type",
    "Vehicle.Seat.Type.Type", "Vehicle.Seat.Value"].map fun p => .plainBranch (.ofText p))

theorem renders_completeSample : completeSample.Complete ∧ completeSample.sharedLeaves ≠ [] ∧
    ∃ units, completeSample.units.result = .ok units ∧
      ∀ module, ∃ files, (renderModule units module).result = .ok files := by
  have hcomplete : completeSample.Complete := by
    constructor <;> decide +kernel
  exact ⟨hcomplete, by decide +kernel, hcomplete.renders⟩

end Registry

end SignalTree
