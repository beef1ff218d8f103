import SignalTree.Proofs.Closed
import SignalTree.Proofs.NamesApart

/-!
Registries whose segments have names of their own. What can clash there has the same leaf, and
of the keys of one scope that is only ever a unit, shown through a gap, and an implicit type
(`SegmentsApart.namesApart_declAt_iff`). Units always exist (`SegmentsApart.exists_units`).
-/
namespace SignalTree

theorem escapeField_ne_valueField (ident : String) : escapeField ident ≠ valueField := by
  unfold escapeField
  split
  · next h =>
    rw [h]
    decide +kernel
  split
  · next h =>
    simp only [strictKeywords, List.mem_cons, List.not_mem_nil, or_false] at h
    rcases h with rfl | rfl | rfl | rfl <;> decide +kernel
  split
  · intro heq
    have hhead := congrArg (·.toList.head?) heq
    simp [valueField] at hhead
  · assumption

theorem fieldName_ne_valueField (p : Path) : fieldName p ≠ valueField :=
  escapeField_ne_valueField _

namespace Path

theorem leaf_mem_segments (p : Path) : p.leaf ∈ p.segments := by
  cases p <;> simp [leaf]

theorem segments_subset_of_mem {p a : Path} (h : a ∈ p :: p.ancestors) :
    a.segments ⊆ p.segments := by
  induction p with
  | root s =>
    obtain rfl : a = root s := by simpa using h
    exact List.Subset.refl _
  | child p s ih =>
    rcases List.mem_cons.mp h with rfl | h
    · exact List.Subset.refl _
    · exact fun t ht => List.mem_append_left _ (ih h ht)

end Path

namespace Registry

def segments (r : Registry) : List Segment := r.paths.flatMap Path.segments

/-- Segments with names of their own, as fields and as the modules of types. -/
structure SegmentsApart (r : Registry) : Prop where
  nonempty : ∀ s ∈ r.segments, s.isEmpty = false
  fields : ∀ s ∈ r.segments, ∀ t ∈ r.segments,
    fieldName (.root s) = fieldName (.root t) → s = t
  modules : ∀ s ∈ r.segments, ∀ t ∈ r.segments,
    moduleName (Path.root s).typeName = moduleName (Path.root t).typeName → s = t

def Mentions (r : Registry) (p : Path) : Prop := ∃ q ∈ r.paths, p ∈ q :: q.ancestors

variable {r : Registry}

theorem mentions_of_mem {p : Path} (hp : p ∈ r.paths) : r.Mentions p :=
  ⟨p, hp, List.mem_cons_self⟩

theorem Mentions.of_mem_ancestors {p a : Path} (hp : r.Mentions p) (ha : a ∈ p.ancestors) :
    r.Mentions a := by
  obtain ⟨q, hq, hpq⟩ := hp
  refine ⟨q, hq, List.mem_cons_of_mem _ ?_⟩
  rcases List.mem_cons.mp hpq with rfl | hpq
  · exact ha
  · exact Path.mem_ancestors_trans ha hpq

theorem Mentions.segments_subset {p : Path} (hp : r.Mentions p) : p.segments ⊆ r.segments := by
  obtain ⟨q, hq, hpq⟩ := hp
  exact fun s hs => List.mem_flatMap.mpr ⟨q, hq, Path.segments_subset_of_mem hpq hs⟩

theorem Mentions.leaf_mem_segments {p : Path} (hp : r.Mentions p) : p.leaf ∈ r.segments :=
  hp.segments_subset p.leaf_mem_segments

theorem mentions_of_mem_keys {p k : Path} (hk : k ∈ (Hierarchy.ofRegistry r).keys p) :
    r.Mentions k := by
  rcases Hierarchy.mem_keys_iff.mp hk with ⟨hu, -⟩ | ⟨-, hn⟩
  · exact mentions_of_mem (Hierarchy.isUnit_iff.mp hu).1
  · obtain ⟨m, hm, -, rfl | hgap⟩ := (Hierarchy.mem_nestedKeys_iff.mp hn).2
    · exact mentions_of_mem (path_mem_paths hm)
    · exact (mentions_of_mem (path_mem_paths hm)).of_mem_ancestors (mem_ancestors_of_mem_gap hgap)

theorem mentions_of_mem_namedPaths {p q : Path} (hp : p ∈ r.paths)
    (hq : q ∈ (Hierarchy.ofRegistry r).namedPaths p) : r.Mentions q := by
  rcases List.mem_append.mp hq with hq | hq
  · rw [Hierarchy.slots_eq_slotsAt hp] at hq
    obtain ⟨s, -, hkey⟩ := Hierarchy.mem_pathsOf_slotsAt.mp hq
    exact mentions_of_mem_keys hkey
  · rcases List.mem_cons.mp hq with rfl | hq
    · exact mentions_of_mem hp
    · exact (mentions_of_mem hp).of_mem_ancestors (Hierarchy.mem_ancestors_of_mem_parentPaths hq)

/-! Keys of one scope with one leaf. -/

theorem eq_of_leaf_eq_unit {p q : Path} (hp : (Hierarchy.ofRegistry r).isUnit p = true)
    (hq : q ∈ r.paths) (h : p.leaf = q.leaf) : p = q := by
  obtain ⟨hr, ht⟩ := Hierarchy.isUnit_iff.mp hp
  obtain ⟨n, hn, rfl⟩ := List.mem_map.mp hr
  obtain ⟨m, hm, rfl⟩ := List.mem_map.mp hq
  rw [(Hierarchy.isTopLevel_ofRegistry hn).mp ht m hm h.symm]

theorem eq_of_mem_nestedKeys {p k k' : Path} (hk : k ∈ (Hierarchy.ofRegistry r).nestedKeys p)
    (hk' : k' ∈ (Hierarchy.ofRegistry r).nestedKeys p) (h : k.leaf = k'.leaf) : k = k' := by
  obtain ⟨s, rfl⟩ := Path.parent?_eq_some.mp (Hierarchy.mem_nestedKeys_iff.mp hk).1
  obtain ⟨s', rfl⟩ := Path.parent?_eq_some.mp (Hierarchy.mem_nestedKeys_iff.mp hk').1
  exact congrArg (Path.child p) h

/-- No unit in a scope has the leaf of an implicit type in it. -/
def UnitsApart (r : Registry) (p : Path) : Prop :=
  ∀ k ∈ (Hierarchy.ofRegistry r).keys p, (Hierarchy.ofRegistry r).isUnit k = true →
    ∀ e ∈ (Hierarchy.ofRegistry r).nestedKeys p, e ∉ r.paths → k.leaf ≠ e.leaf

theorem UnitsApart.eq_of_mem_keys {p k k' : Path} (hp : r.UnitsApart p)
    (hk : k ∈ (Hierarchy.ofRegistry r).keys p) (hk' : k' ∈ (Hierarchy.ofRegistry r).keys p)
    (h : k.leaf = k'.leaf) : k = k' := by
  have unit_nested {u e : Path} (hu : u ∈ (Hierarchy.ofRegistry r).keys p)
      (hunit : (Hierarchy.ofRegistry r).isUnit u = true)
      (he : e ∈ (Hierarchy.ofRegistry r).nestedKeys p) (h : u.leaf = e.leaf) : u = e := by
    by_cases hr : e ∈ r.paths
    · exact eq_of_leaf_eq_unit hunit hr h
    · exact absurd h (hp u hu hunit e he hr)
  rcases Hierarchy.mem_keys_iff.mp hk with ⟨hu, -⟩ | ⟨-, hn⟩
  · rcases Hierarchy.mem_keys_iff.mp hk' with ⟨hu', -⟩ | ⟨-, hn'⟩
    · exact eq_of_leaf_eq_unit hu (Hierarchy.isUnit_iff.mp hu').1 h
    · exact unit_nested hk hu hn' h
  · rcases Hierarchy.mem_keys_iff.mp hk' with ⟨hu', -⟩ | ⟨-, hn'⟩
    · exact (unit_nested hk' hu' hn h.symm).symm
    · exact eq_of_mem_nestedKeys hn hn' h

namespace SegmentsApart

variable (hr : r.SegmentsApart)

include hr

theorem isNameable {p : Path} (hp : r.Mentions p) : p.isNameable = true := by
  rw [Path.isNameable, hr.nonempty _ hp.leaf_mem_segments]
  rfl

theorem leaf_eq_of_fieldName {p q : Path} (hp : r.Mentions p) (hq : r.Mentions q)
    (h : fieldName p = fieldName q) : p.leaf = q.leaf :=
  hr.fields _ hp.leaf_mem_segments _ hq.leaf_mem_segments h

theorem leaf_eq_of_moduleName {p q : Path} (hp : r.Mentions p) (hq : r.Mentions q)
    (h : moduleName p.typeName = moduleName q.typeName) : p.leaf = q.leaf :=
  hr.modules _ hp.leaf_mem_segments _ hq.leaf_mem_segments h

theorem nodup_modules (p : Path) :
    (((Hierarchy.ofRegistry r).nestedKeys p).map fun k => moduleName k.typeName).Nodup := by
  refine ((Hierarchy.nodup_keys p).filter _).map_on fun k hk k' hk' heq => ?_
  refine eq_of_mem_nestedKeys hk hk' (hr.leaf_eq_of_moduleName ?_ ?_ heq)
  · exact mentions_of_mem_keys (List.mem_of_mem_filter hk)
  · exact mentions_of_mem_keys (List.mem_of_mem_filter hk')

theorem fieldsDistinct_declAt_iff (p : Path) :
    Source.FieldsDistinct ((Hierarchy.ofRegistry r).declAt p) ↔ r.UnitsApart p := by
  have hpath (k : Path) : ((Hierarchy.ofRegistry r).refAt k).path = k := rfl
  simp only [Source.FieldsDistinct, Hierarchy.declAt_children, List.map_map, Function.comp_def,
    hpath, List.nodup_cons]
  constructor
  · rintro ⟨-, hnodup⟩ k hk hu e he hreg hleaf
    have hfield : fieldName k = fieldName e := by rw [fieldName, fieldName, hleaf]
    have hmem := List.mem_filter.mp he
    rw [List.inj_on_of_nodup_map hnodup hk hmem.1 hfield] at hu
    simp [hu] at hmem
  · intro hp
    constructor
    · intro hmem
      obtain ⟨k, -, heq⟩ := List.mem_map.mp hmem
      exact fieldName_ne_valueField k heq
    · refine (Hierarchy.nodup_keys p).map_on fun k hk k' hk' heq => ?_
      exact hp.eq_of_mem_keys hk hk'
        (hr.leaf_eq_of_fieldName (mentions_of_mem_keys hk) (mentions_of_mem_keys hk') heq)

/-- Only the fields of a type can clash, and only where a unit meets an implicit type. -/
theorem namesApart_declAt_iff (p : Path) :
    Source.NamesApart ((Hierarchy.ofRegistry r).declAt p) ↔ r.UnitsApart p := by
  rw [Source.namesApart_iff, hr.fieldsDistinct_declAt_iff]
  refine and_iff_left ⟨?_, ?_⟩
  · refine List.Nodup.of_map moduleName ?_
    rw [Hierarchy.declAt_nested, List.map_map, List.map_map]
    exact hr.nodup_modules p
  · rw [Source.moduleNames, Hierarchy.declAt_nested, List.filter_map, List.map_map]
    exact (List.filter_sublist.map _).nodup (hr.nodup_modules p)

theorem name_mem_nested_iff {p : Path} (hp : (Hierarchy.ofRegistry r).isUnit p = true) :
    p.typeName ∈ ((Hierarchy.ofRegistry r).declAt p).nested.map TypeDecl.name ↔
      ∃ e ∈ (Hierarchy.ofRegistry r).nestedKeys p, e ∉ r.paths ∧ e.leaf = p.leaf := by
  rw [Hierarchy.declAt_nested, List.map_map, List.mem_map]
  refine exists_congr fun e => and_congr_right fun he => ?_
  change e.typeName = p.typeName ↔ _
  constructor
  · intro heq
    have hleaf : e.leaf = p.leaf := hr.leaf_eq_of_moduleName
      (mentions_of_mem_keys (List.mem_of_mem_filter he))
      (mentions_of_mem (Hierarchy.isUnit_iff.mp hp).1) (congrArg moduleName heq)
    refine ⟨fun hreg => ?_, hleaf⟩
    -- Nothing shares its leaf with a unit, so that type would lie below itself.
    have hpar := (Hierarchy.mem_nestedKeys_iff.mp he).1
    rw [← eq_of_leaf_eq_unit hp hreg hleaf.symm] at hpar
    exact Path.not_mem_ancestors_self _ (Path.mem_ancestors_of_parent? hpar)
  · rintro ⟨-, hleaf⟩
    rw [Path.typeName, Path.typeName, hleaf]

theorem nodup_top_level_names :
    ((r.nodes.filter fun n => (Hierarchy.ofRegistry r).isTopLevel n.path).map
      fun n => moduleName n.path.typeName).Nodup := by
  refine ((List.Nodup.of_map _ r.nodup).filter _).map_on fun n hn m hm heq => ?_
  obtain ⟨hn, ht⟩ := List.mem_filter.mp hn
  obtain ⟨hm, -⟩ := List.mem_filter.mp hm
  have hleaf := hr.leaf_eq_of_moduleName (mentions_of_mem (path_mem_paths hn))
    (mentions_of_mem (path_mem_paths hm)) heq
  exact ((Hierarchy.isTopLevel_ofRegistry hn).mp ht m hm hleaf.symm).symm

theorem exists_units : ∃ units, r.units.result = .ok units := by
  have hnames : ((r.nodes.filter fun n => (Hierarchy.ofRegistry r).isTopLevel n.path).map
      fun n => n.path.typeName).Nodup := by
    refine List.Nodup.of_map moduleName ?_
    rw [List.map_map]
    exact hr.nodup_top_level_names
  have hnamed : ∀ n ∈ r.nodes, (Hierarchy.ofRegistry r).isTopLevel n.path = true →
      ∀ p ∈ (Hierarchy.ofRegistry r).namedPaths n.path, p.isNameable = true :=
    fun n hn _ p hp => hr.isNameable (mentions_of_mem_namedPaths (path_mem_paths hn) hp)
  rw [units_eq]
  exact Hierarchy.exists_unitsFrom_eq_ok hnamed hnames (by simp)

end SegmentsApart

end Registry

end SignalTree
