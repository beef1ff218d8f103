import SignalTree.Proofs.Registering
import SignalTree.Proofs.SegmentNames

/-!
Registries with gaps beside the same registries with a branch in every gap. Without gaps there
are always units and files. With gaps there still are units, and files exactly if no implicit
type meets a unit with its leaf (`SegmentsApart.renders_iff`).
-/
namespace SignalTree

/-- Implicit types that meet no unit with their leaf: none has its type beside them, and none
is the unit they lie right inside of. -/
structure TypeUnit.ImplicitApart (u : TypeUnit) : Prop where
  beside : ∀ t ∈ u.types, ∀ e ∈ t.nested, e.implicit = true →
    ∀ c ∈ t.children, c.kind = .unit → c.path.leaf ≠ e.path.leaf
  inside : ∀ e ∈ u.decl.nested, e.implicit = true → e.path.leaf ≠ u.decl.path.leaf

namespace Registry

variable {r : Registry}

/-! The branches that a registry lacks. -/

def missing (r : Registry) : List Path :=
  ((r.paths.flatMap Path.ancestors).filter (!r.contains ·)).eraseDups

/-- The registry with a plain branch for each missing path after its own nodes. -/
def completed (r : Registry) : Registry := .ofNodes (r.nodes ++ r.missing.map .plainBranch)

theorem mem_missing {p : Path} :
    p ∈ r.missing ↔ (∃ q ∈ r.paths, p ∈ q.ancestors) ∧ p ∉ r.paths := by
  simp [missing, contains_eq_false]

theorem paths_completed (r : Registry) : r.completed.paths = r.paths ++ r.missing := by
  have hbranches : (r.missing.map Node.plainBranch).map Node.path = r.missing := by
    rw [List.map_map]
    exact List.map_id' r.missing
  have hnodup : ((r.nodes ++ r.missing.map Node.plainBranch).map Node.path).Nodup := by
    rw [List.map_append, hbranches]
    refine List.nodup_append'.mpr ⟨r.nodup, nodup_eraseDups _, fun p hp hmissing => ?_⟩
    exact (mem_missing.mp hmissing).2 hp
  rw [paths, completed, nodes_ofNodes hnodup, List.map_append, hbranches, paths]

theorem mem_paths_completed {p : Path} : p ∈ r.completed.paths ↔ r.Mentions p := by
  rw [paths_completed, List.mem_append, mem_missing]
  constructor
  · rintro (hp | ⟨⟨q, hq, hp⟩, -⟩)
    · exact mentions_of_mem hp
    · exact (mentions_of_mem hq).of_mem_ancestors hp
  · rintro ⟨q, hq, hp⟩
    by_cases hreg : p ∈ r.paths
    · exact .inl hreg
    · rcases List.mem_cons.mp hp with rfl | hp
      · exact absurd hq hreg
      · exact .inr ⟨⟨q, hq, hp⟩, hreg⟩

theorem closed_completed (r : Registry) : r.completed.Closed := by
  intro p hp q hq
  rw [mem_paths_completed] at hp ⊢
  exact hp.of_mem_ancestors (Path.mem_ancestors_of_parent? hq)

theorem segments_completed_subset (r : Registry) : r.completed.segments ⊆ r.segments := by
  intro s hs
  obtain ⟨p, hp, hs⟩ := List.mem_flatMap.mp hs
  exact (mem_paths_completed.mp hp).segments_subset hs

theorem unitsApart_iff {p : Path} : r.UnitsApart p ↔
    ∀ e ∈ ((Hierarchy.ofRegistry r).declAt p).nested, e.implicit = true →
      ∀ c ∈ ((Hierarchy.ofRegistry r).declAt p).children, c.kind = .unit →
        c.path.leaf ≠ e.path.leaf := by
  have hkind (k : Path) : ((Hierarchy.ofRegistry r).refAt k).kind = .unit ↔
      (Hierarchy.ofRegistry r).isUnit k = true := by
    rw [Hierarchy.refAt]
    cases (Hierarchy.ofRegistry r).isUnit k <;> simp
  rw [Hierarchy.declAt_nested, Hierarchy.declAt_children]
  simp only [List.forall_mem_map, Hierarchy.implicit_declAt, Hierarchy.path_declAt, hkind]
  exact ⟨fun h e he himplicit k hk hu => h k hk hu e he himplicit,
    fun h k hk hu e he himplicit => h e he himplicit k hk hu⟩

namespace SegmentsApart

variable {units : List TypeUnit} (hr : r.SegmentsApart)

include hr

theorem completed : r.completed.SegmentsApart :=
  have hsub := r.segments_completed_subset
  ⟨fun s hs => hr.nonempty s (hsub hs), fun s hs t ht => hr.fields s (hsub hs) t (hsub ht),
    fun s hs t ht => hr.modules s (hsub hs) t (hsub ht)⟩

theorem name_not_mem_nested_iff {p : Path} (hp : (Hierarchy.ofRegistry r).isUnit p = true) :
    ((Hierarchy.ofRegistry r).declAt p).name ∉
        ((Hierarchy.ofRegistry r).declAt p).nested.map TypeDecl.name ↔
      ∀ e ∈ ((Hierarchy.ofRegistry r).declAt p).nested, e.implicit = true →
        e.path.leaf ≠ ((Hierarchy.ofRegistry r).declAt p).path.leaf := by
  have hname : ((Hierarchy.ofRegistry r).declAt p).name = p.typeName := rfl
  rw [hname, hr.name_mem_nested_iff hp, Hierarchy.declAt_nested]
  simp only [List.forall_mem_map, Hierarchy.implicit_declAt, Hierarchy.path_declAt, not_exists,
    not_and]
  rfl

theorem checkUnit_isOk_iff (hu : r.units.result = .ok units) {u : TypeUnit} (hm : u ∈ units) :
    (∃ x, Source.checkUnit u = .ok x) ↔ u.ImplicitApart := by
  obtain ⟨hunit, hdecl⟩ := exists_declAt_of_mem_units hu hm
  have hapart : ∀ t ∈ u.types, (Source.NamesApart t ↔ ∀ e ∈ t.nested, e.implicit = true →
      ∀ c ∈ t.children, c.kind = .unit → c.path.leaf ≠ e.path.leaf) := by
    intro t ht
    obtain ⟨q, -, rfl⟩ := (mem_types_of_mem_units hu hm).mp ht
    rw [hr.namesApart_declAt_iff, unitsApart_iff]
  have hinside := hr.name_not_mem_nested_iff hunit
  rw [← hdecl] at hinside
  rw [Source.checkUnit_isOk_iff (isNamed_of_mem_units hu hm).types, forall₂_congr hapart, hinside]
  exact ⟨fun h => ⟨h.1, h.2⟩, fun h => ⟨h.beside, h.inside⟩⟩

theorem renders_iff (hu : r.units.result = .ok units) (module : String) :
    (∃ files, (Source.renderModule units module).result = .ok files) ↔
      ∀ u ∈ units, u.ImplicitApart := by
  have hmodules : (units.map fun u => moduleName u.decl.name).Nodup := by
    rw [(units_eq_ok hu).1, List.map_map]
    exact hr.nodup_top_level_names
  rw [Source.renderModule_isOk_iff module fun u hm =>
    (isNamed_of_mem_units hu hm).types _ (TypeDecl.self_mem_types _)]
  exact (and_iff_left hmodules).trans (forall₂_congr fun u hm => hr.checkUnit_isOk_iff hu hm)

theorem renders_completed : ∃ units, r.completed.units.result = .ok units ∧
    ∀ module, ∃ files, (Source.renderModule units module).result = .ok files := by
  obtain ⟨units, hu⟩ := hr.completed.exists_units
  refine ⟨units, hu, fun module => (hr.completed.renders_iff hu module).mpr fun u hm => ?_⟩
  have hexplicit : ∀ t ∈ u.types, ∀ e ∈ t.nested, e.implicit = false := fun t ht e he =>
    r.closed_completed.explicit hu hm (TypeDecl.mem_types_of_mem_nested ht he)
  constructor
  · intro t ht e he himplicit
    simp [hexplicit t ht e he] at himplicit
  · intro e he himplicit
    simp [hexplicit u.decl u.decl.self_mem_types e he] at himplicit

/-- With all branches there are always files. Without some there are still units, and files
unless an implicit type meets a unit with its leaf. -/
theorem renders_with_gaps_iff :
    (∃ units, r.completed.units.result = .ok units ∧
      ∀ module, ∃ files, (Source.renderModule units module).result = .ok files) ∧
    ∃ units, r.units.result = .ok units ∧
      ∀ module, (∃ files, (Source.renderModule units module).result = .ok files) ↔
        ∀ u ∈ units, u.ImplicitApart := by
  obtain ⟨units, hu⟩ := hr.exists_units
  exact ⟨hr.renders_completed, units, hu, hr.renders_iff hu⟩

end SegmentsApart

theorem implicitApart_sample : sample.SegmentsApart ∧
    ∃ units, sample.units.result = .ok units ∧
      units.any (·.types.any TypeDecl.implicit) = true ∧ ∀ u ∈ units, u.ImplicitApart := by
  have hapart : sample.SegmentsApart := by
    constructor <;> decide +kernel
  have hok : sample.units.result.toOption.any (fun units =>
      (Source.renderModule units "vss").result.isOk &&
        units.any (·.types.any TypeDecl.implicit)) = true := by
    decide +kernel
  obtain ⟨units, files, hu, hf, himplicit⟩ := Source.exists_rendered hok
  obtain ⟨-, units', hu', hrenders⟩ := hapart.renders_with_gaps_iff
  obtain rfl : units' = units := Except.ok.inj (hu'.symm.trans hu)
  exact ⟨hapart, units', hu', himplicit, (hrenders "vss").mp ⟨files, hf⟩⟩

def cabinSample : Registry :=
  .ofNodes (["Vehicle", "Vehicle.Door", "Vehicle.Cabin.Door", "Vehicle.Body.Cabin"].map fun p =>
    .plainBranch (.ofText p))

def IsWord (s : Segment) : Prop :=
  s.text.toList.head?.any Char.isAlpha = true ∧ s.text.toList.all Char.isAlphanum = true

instance (s : Segment) : Decidable (IsWord s) := inferInstanceAs (Decidable (_ ∧ _))

/-- The two cabins have one field, though segments have names of their own and the registry with
all branches is rendered. -/
theorem clash_cabinSample : (∀ s ∈ cabinSample.segments, IsWord s) ∧ cabinSample.SegmentsApart ∧
    (∃ units files, cabinSample.completed.units.result = .ok units ∧
      (Source.renderModule units "vss").result = .ok files) ∧
    ∃ units, cabinSample.units.result = .ok units ∧
      (Source.renderModule units "vss").result = .error (.invariant (.nameClash .field "cabin"
        (.ofText "Vehicle.Cabin") (.ofText "Vehicle.Body.Cabin"))) := by
  have hapart : cabinSample.SegmentsApart := by
    constructor <;> decide +kernel
  obtain ⟨units, hu, hfiles⟩ := hapart.renders_completed
  obtain ⟨files, hf⟩ := hfiles "vss"
  refine ⟨by decide +kernel, hapart, ⟨units, files, hu, hf⟩, ?_⟩
  have hclash : (cabinSample.units.result.bind fun units =>
      (Source.renderModule units "vss").result) = .error (.invariant (.nameClash .field "cabin"
        (.ofText "Vehicle.Cabin") (.ofText "Vehicle.Body.Cabin"))) := by
    decide +kernel
  obtain ⟨units, hu⟩ := hapart.exists_units
  rw [hu] at hclash
  exact ⟨units, hu, hclash⟩

end Registry

end SignalTree
