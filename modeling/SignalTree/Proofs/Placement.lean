import Mathlib.Logic.Relation
import SignalTree.Proofs.TypeTree
import SignalTree.Proofs.Units

/-!
Where the nodes of a registry go. The types inside a unit are the nested paths
that the unit owns (`below_iff`), so nothing is lost and nothing placed twice.
-/
namespace SignalTree

namespace Hierarchy

variable {h : Hierarchy}

theorem isUnit_of_isNested {p : Path} (hp : h.IsNested p) : h.isUnit p = false := by
  obtain ⟨n, hn, ht, rfl | hgap⟩ := hp
  · simp [isUnit, ht]
  · simp [isUnit, Registry.contains_eq_false.mpr (Registry.not_mem_paths_of_mem_gap hgap)]

theorem mem_nestedKeys_iff {p k : Path} :
    k ∈ h.nestedKeys p ↔ k.parent? = some p ∧ h.IsNested k := by
  rw [mem_nestedKeys]
  exact ⟨fun hk => hk.2, fun hk => ⟨isUnit_of_isNested hk.2, hk⟩⟩

theorem isNested_of_parent? {p q : Path} (hq : h.IsNested q) (hpar : q.parent? = some p)
    (hp : h.isUnit p = false) : h.IsNested p := by
  by_cases hr : p ∈ h.registry.paths
  · obtain ⟨n, hn, rfl⟩ := mem_paths.mp hr
    refine ⟨n, hn, ?_, .inl rfl⟩
    simpa [isUnit, hr] using hp
  · obtain ⟨n, hn, ht, hmem⟩ := hq
    refine ⟨n, hn, ht, .inr ((structuralParent?_of_at_or_above hmem).2 p ?_)⟩
    rw [Registry.gap_of_parent? _ hpar, Registry.contains_eq_false.mpr hr]
    exact List.mem_cons_self

theorem owner?_of_parent? {p q : Path} (hpar : q.parent? = some p) :
    h.owner? q = if h.isUnit p then some p else h.owner? p := by
  change q.ancestors.find? h.isUnit = _
  rw [Path.ancestors_of_parent? hpar, List.find?_cons]
  cases h.isUnit p <;> rfl

theorem isUnit_of_owner? {p o : Path} (ho : h.owner? p = some o) : h.isUnit o = true :=
  List.find?_some (p := h.isUnit) ho

/-- The paths of the types inside the type of a path, at any depth. -/
def Below (h : Hierarchy) : Path → Path → Prop :=
  Relation.TransGen fun p q => q ∈ h.nestedKeys p

theorem isNested_of_below {p q : Path} (hb : h.Below p q) : h.IsNested q := by
  cases hb with
  | single hk => exact (mem_nestedKeys_iff.mp hk).2
  | tail _ hk => exact (mem_nestedKeys_iff.mp hk).2

theorem below_iff {u q : Path} (hu : h.isUnit u = true) :
    h.Below u q ↔ h.IsNested q ∧ h.owner? q = some u := by
  constructor
  · intro hb
    refine ⟨isNested_of_below hb, ?_⟩
    induction hb with
    | single hk =>
      rw [owner?_of_parent? (mem_nestedKeys_iff.mp hk).1, if_pos hu]
    | tail hb hk ih =>
      rw [owner?_of_parent? (mem_nestedKeys_iff.mp hk).1, isUnit_of_isNested (isNested_of_below hb),
        if_neg (by simp), ih]
  · rintro ⟨hq, ho⟩
    induction q with
    | root s => simp [owner?] at ho
    | child p s ih =>
      rw [owner?_of_parent? (Path.parent?_child p s)] at ho
      have hk : Path.child p s ∈ h.nestedKeys p :=
        mem_nestedKeys_iff.mpr ⟨Path.parent?_child p s, hq⟩
      cases hp : h.isUnit p with
      | true =>
        rw [if_pos hp, Option.some.injEq] at ho
        exact .single (ho ▸ hk)
      | false =>
        rw [if_neg (by simp [hp])] at ho
        exact .tail (ih (isNested_of_parent? hq (Path.parent?_child p s) hp) ho) hk

theorem mem_typesOf_nested {p : Path} {d : TypeDecl} :
    d ∈ TypeDecl.typesOf (h.declAt p).nested ↔ ∃ q, h.Below p q ∧ d = h.declAt q := by
  constructor
  · apply TypeDecl.typesOf_induction
    · rintro _ e ⟨q, hb, rfl⟩ he
      rw [declAt_nested] at he
      obtain ⟨k, hk, rfl⟩ := List.mem_map.mp he
      exact ⟨k, hb.tail hk, rfl⟩
    · intro e he
      rw [declAt_nested] at he
      obtain ⟨k, hk, rfl⟩ := List.mem_map.mp he
      exact ⟨k, .single hk, rfl⟩
  · rintro ⟨q, hb, rfl⟩
    have hnested {p q : Path} (hk : q ∈ h.nestedKeys p) : h.declAt q ∈ (h.declAt p).nested := by
      rw [declAt_nested]
      exact List.mem_map_of_mem hk
    induction hb with
    | single hk =>
      exact TypeDecl.mem_typesOf.mpr ⟨_, hnested hk, TypeDecl.self_mem_types _⟩
    | tail _ hk ih =>
      obtain ⟨e, he, ih⟩ := TypeDecl.mem_typesOf.mp ih
      exact TypeDecl.mem_typesOf.mpr ⟨e, he, TypeDecl.mem_types_of_mem_nested ih (hnested hk)⟩

theorem mem_types_declAt {p : Path} {d : TypeDecl} :
    d ∈ (h.declAt p).types ↔ ∃ q, (q = p ∨ h.Below p q) ∧ d = h.declAt q := by
  rw [TypeDecl.types_eq, List.mem_cons, mem_typesOf_nested]
  constructor
  · rintro (rfl | ⟨q, hq, rfl⟩)
    · exact ⟨p, .inl rfl, rfl⟩
    · exact ⟨q, .inr hq, rfl⟩
  · rintro ⟨q, rfl | hq, rfl⟩
    · exact .inl rfl
    · exact .inr ⟨q, hq, rfl⟩

theorem nested_declAt {p : Path} {e : TypeDecl} (he : e ∈ (h.declAt p).nested) :
    ∃ q, e = h.declAt q ∧ q.parent? = some p := by
  rw [declAt_nested] at he
  obtain ⟨q, hq, rfl⟩ := List.mem_map.mp he
  exact ⟨q, rfl, (mem_nestedKeys_iff.mp hq).1⟩

theorem stepwise_declAt (p : Path) : (h.declAt p).Stepwise := by
  intro t ht
  obtain ⟨q, -, rfl⟩ := mem_types_declAt.mp ht
  constructor
  · rw [declAt_nested, List.map_map]
    have hpaths : (h.nestedKeys q).map (TypeDecl.path ∘ h.declAt) = h.nestedKeys q := by
      simp [Function.comp_def]
    rw [hpaths]
    exact (nodup_keys q).filter _
  · intro e he
    obtain ⟨k, rfl, hk⟩ := nested_declAt he
    simpa using hk

theorem isNested_iff_of_mem {n : Node} (hn : n ∈ h.registry.nodes) :
    h.IsNested n.path ↔ h.isTopLevel n.path = false := by
  constructor
  · intro hnest
    simpa [isUnit, mem_paths_of_mem hn] using isUnit_of_isNested hnest
  · exact fun ht => ⟨n, hn, ht, .inl rfl⟩

/-- No unit lies in the gap above a node, so the gap has the owner of the node. -/
theorem owner?_of_mem_gap {p q : Path} (hq : q ∈ h.registry.gap p) : h.owner? q = h.owner? p := by
  induction p with
  | root s => simp [Registry.gap] at hq
  | child p s ih =>
    have hpar := Path.parent?_child p s
    rw [Registry.gap_of_parent? _ hpar] at hq
    split at hq
    · simp at hq
    · next hr =>
      rw [owner?_of_parent? hpar, isUnit, Bool.eq_false_iff.mpr hr, Bool.false_and,
        if_neg (by simp)]
      rcases List.mem_cons.mp hq with rfl | hq
      · rfl
      · exact ih hq

theorem isNested_iff_of_not_mem {q : Path} (hq : q ∉ h.registry.paths) :
    h.IsNested q ↔ ∃ n ∈ h.registry.nodes, h.isTopLevel n.path = false ∧
      q ∈ h.registry.gap n.path := by
  constructor
  · rintro ⟨n, hn, ht, rfl | hgap⟩
    · exact absurd (mem_paths_of_mem hn) hq
    · exact ⟨n, hn, ht, hgap⟩
  · rintro ⟨n, hn, ht, hgap⟩
    exact ⟨n, hn, ht, .inr hgap⟩

theorem exists_structuralParent? {p o : Path} (ho : h.owner? p = some o) :
    ∃ s, h.registry.structuralParent? p = some s := by
  have hr := (isUnit_iff.mp (isUnit_of_owner? ho)).1
  have hmem : o ∈ p.ancestors := List.mem_of_find?_eq_some ho
  exact Option.isSome_iff_exists.mp
    (List.find?_isSome.mpr ⟨o, hmem, Registry.contains_iff.mpr hr⟩)

end Hierarchy

namespace Registry

theorem mem_gap_iff {r : Registry} {p q s : Path} (hs : r.structuralParent? p = some s) :
    q ∈ r.gap p ↔ q ∉ r.paths ∧ s ∈ q.ancestors ∧ q ∈ p.ancestors := by
  constructor
  · intro hq
    refine ⟨not_mem_paths_of_mem_gap hq, ?_, mem_ancestors_of_mem_gap hq⟩
    rw [← structuralParent?_of_mem_gap hq] at hs
    exact mem_ancestors_of_structuralParent? hs
  · rintro ⟨-, hsq, hqp⟩
    rw [ancestors_eq hs] at hqp
    rcases List.mem_append.mp hqp with hq | hq
    · exact hq
    · have hlt := Path.depth_lt_of_mem_ancestors hsq
      rcases List.mem_cons.mp hq with rfl | hq
      · exact absurd hlt (Nat.lt_irrefl _)
      · exact absurd (Path.depth_lt_of_mem_ancestors hq) (Nat.lt_asymm hlt)

end Registry

/-- How the nodes of a registry lie in its units, and what is reported of the others. -/
structure Placement (r : Registry) (units : List TypeUnit) (log : List Event) : Prop where
  /-- A node is top-level when no other node has its leaf. -/
  topLevel : ∀ n ∈ r.nodes, (Hierarchy.ofRegistry r).isTopLevel n.path = true ↔
    ∀ m ∈ r.nodes, m.path.leaf = n.path.leaf → m = n
  distinct : ((units.flatMap TypeUnit.types).map TypeDecl.path).Nodup
  topLevelNodes : units.map (·.decl.node) =
    r.nodes.filter fun n => (Hierarchy.ofRegistry r).isTopLevel n.path
  explicit : ∀ u ∈ units, u.decl.implicit = false
  owners : ∀ p o, (Hierarchy.ofRegistry r).owner? p = some o → ∃ u ∈ units, u.decl.path = o
  ownerless : ∀ p, (Hierarchy.ofRegistry r).owner? p = none ↔
    ∀ q ∈ p.ancestors, q ∈ r.paths → (Hierarchy.ofRegistry r).isTopLevel q = false
  /-- The nodes nested in a unit are those with a shared leaf that it owns. -/
  nested : ∀ u ∈ units, ∀ n,
    (∃ t ∈ TypeDecl.typesOf u.decl.nested, t.implicit = false ∧ t.node = n) ↔
      n ∈ r.nodes ∧ (Hierarchy.ofRegistry r).isTopLevel n.path = false ∧
        (Hierarchy.ofRegistry r).owner? n.path = some u.decl.path
  /-- The implicit types in a unit lie between the nodes nested in it and their
  structural parents. -/
  implicit : ∀ u ∈ units, ∀ q,
    (∃ t ∈ TypeDecl.typesOf u.decl.nested, t.implicit = true ∧ t.path = q) ↔
      q ∉ r.paths ∧ ∃ n ∈ r.nodes, (Hierarchy.ofRegistry r).isTopLevel n.path = false ∧
        (Hierarchy.ofRegistry r).owner? n.path = some u.decl.path ∧
        ∃ s, r.structuralParent? n.path = some s ∧ s ∈ q.ancestors ∧ q ∈ n.path.ancestors
  step : ∀ u ∈ units, ∀ t ∈ u.types, ∀ e ∈ t.nested,
    ∃ s : Segment, e.path.text = t.path.text ++ "." ++ s.text
  skipped : ∀ n ∈ r.nodes, (∀ u ∈ units, ∀ t ∈ u.types, t.path ≠ n.path) ↔
    (Hierarchy.ofRegistry r).isTopLevel n.path = false ∧
      (Hierarchy.ofRegistry r).owner? n.path = none
  /-- Every node without a place is reported once, and no other path is. -/
  reported : ∀ p, log.count (.orphanSkipped p) =
    if ∃ n ∈ r.nodes, n.path = p ∧ (Hierarchy.ofRegistry r).isTopLevel p = false ∧
      (Hierarchy.ofRegistry r).owner? p = none then 1 else 0

namespace Registry

variable {r : Registry} {units : List TypeUnit}

theorem mem_units (hu : r.units.result = .ok units) {u : TypeUnit} :
    u ∈ units ↔ ∃ n ∈ r.nodes, (Hierarchy.ofRegistry r).isTopLevel n.path = true ∧
      u = (Hierarchy.ofRegistry r).unit n := by
  rw [(units_eq_ok hu).1, List.mem_map]
  constructor
  · rintro ⟨n, hn, rfl⟩
    obtain ⟨hn, ht⟩ := List.mem_filter.mp hn
    exact ⟨n, hn, ht, rfl⟩
  · rintro ⟨n, hn, ht, rfl⟩
    exact ⟨n, List.mem_filter.mpr ⟨hn, ht⟩, rfl⟩

theorem exists_declAt_of_mem_units (hu : r.units.result = .ok units) {u : TypeUnit}
    (hm : u ∈ units) : (Hierarchy.ofRegistry r).isUnit u.decl.path = true ∧
      u.decl = (Hierarchy.ofRegistry r).declAt u.decl.path := by
  obtain ⟨n, hn, ht, rfl⟩ := (mem_units hu).mp hm
  have hdecl := Hierarchy.unit_decl (h := Hierarchy.ofRegistry r) hn
  rw [hdecl, Hierarchy.path_declAt]
  exact ⟨Hierarchy.isUnit_iff.mpr ⟨Hierarchy.mem_paths_of_mem hn, ht⟩, rfl⟩

theorem exists_mem_units (hu : r.units.result = .ok units) {p : Path}
    (hp : (Hierarchy.ofRegistry r).isUnit p = true) : ∃ u ∈ units, u.decl.path = p := by
  obtain ⟨hr, ht⟩ := Hierarchy.isUnit_iff.mp hp
  obtain ⟨n, hn, rfl⟩ := Hierarchy.mem_paths.mp hr
  refine ⟨_, (mem_units hu).mpr ⟨n, hn, ht, rfl⟩, ?_⟩
  rw [Hierarchy.unit_decl hn, Hierarchy.path_declAt]

theorem nodup_unit_paths (hu : r.units.result = .ok units) :
    (units.map (·.decl.path)).Nodup := by
  have hmap : units.map (·.decl.path) =
      (r.nodes.filter fun n => (Hierarchy.ofRegistry r).isTopLevel n.path).map Node.path := by
    rw [(units_eq_ok hu).1, List.map_map]
    rfl
  rw [hmap]
  exact (List.Sublist.map _ List.filter_sublist).nodup r.nodup

/-- The types of a unit, by their paths. -/
theorem mem_types_of_mem_units (hu : r.units.result = .ok units) {u : TypeUnit} (hm : u ∈ units)
    {t : TypeDecl} : t ∈ u.types ↔
      ∃ q, (q = u.decl.path ∨ (Hierarchy.ofRegistry r).IsNested q ∧
        (Hierarchy.ofRegistry r).owner? q = some u.decl.path) ∧
        t = (Hierarchy.ofRegistry r).declAt q := by
  obtain ⟨hunit, hdecl⟩ := exists_declAt_of_mem_units hu hm
  rw [TypeUnit.types, hdecl, Hierarchy.mem_types_declAt, Hierarchy.path_declAt]
  simp only [Hierarchy.below_iff hunit]

theorem mem_typesOf_nested_of_mem_units (hu : r.units.result = .ok units) {u : TypeUnit}
    (hm : u ∈ units) {t : TypeDecl} : t ∈ TypeDecl.typesOf u.decl.nested ↔
      ∃ q, (Hierarchy.ofRegistry r).IsNested q ∧
        (Hierarchy.ofRegistry r).owner? q = some u.decl.path ∧
        t = (Hierarchy.ofRegistry r).declAt q := by
  obtain ⟨hunit, hdecl⟩ := exists_declAt_of_mem_units hu hm
  rw [hdecl, Hierarchy.mem_typesOf_nested, Hierarchy.path_declAt]
  simp only [Hierarchy.below_iff hunit, and_assoc]

theorem nodup_type_paths (hu : r.units.result = .ok units) :
    ((units.flatMap TypeUnit.types).map TypeDecl.path).Nodup := by
  rw [List.map_flatMap, List.nodup_flatMap]
  constructor
  · intro u hm
    rw [TypeUnit.types, (exists_declAt_of_mem_units hu hm).2]
    exact TypeDecl.Stepwise.nodup_types _ (Hierarchy.stepwise_declAt _)
  · refine List.Pairwise.imp_of_mem ?_ (List.pairwise_map.mp (nodup_unit_paths hu))
    intro u v hmu hmv hne q hqu hqv
    obtain ⟨t, ht, rfl⟩ := List.mem_map.mp hqu
    obtain ⟨t', ht', heq⟩ := List.mem_map.mp hqv
    obtain ⟨p, hp, rfl⟩ := (mem_types_of_mem_units hu hmu).mp ht
    obtain ⟨p', hp', rfl⟩ := (mem_types_of_mem_units hu hmv).mp ht'
    rw [Hierarchy.path_declAt, Hierarchy.path_declAt] at heq
    subst heq
    have hunit := (exists_declAt_of_mem_units hu hmu).1
    have hunit' := (exists_declAt_of_mem_units hu hmv).1
    rcases hp with rfl | ⟨hnest, ho⟩
    · rcases hp' with heq | ⟨hnest, -⟩
      · exact hne heq
      · simp [Hierarchy.isUnit_of_isNested hnest] at hunit
    · rcases hp' with rfl | ⟨-, ho'⟩
      · simp [Hierarchy.isUnit_of_isNested hnest] at hunit'
      · rw [ho, Option.some.injEq] at ho'
        exact hne ho'

theorem map_node_units (hu : r.units.result = .ok units) : units.map (·.decl.node) =
    r.nodes.filter fun n => (Hierarchy.ofRegistry r).isTopLevel n.path := by
  rw [(units_eq_ok hu).1, List.map_map]
  exact (List.map_congr_left fun n _ => rfl).trans (List.map_id _)

theorem exists_explicit_iff (hu : r.units.result = .ok units) {u : TypeUnit} (hm : u ∈ units)
    {n : Node} : (∃ t ∈ TypeDecl.typesOf u.decl.nested, t.implicit = false ∧ t.node = n) ↔
      n ∈ r.nodes ∧ (Hierarchy.ofRegistry r).isTopLevel n.path = false ∧
        (Hierarchy.ofRegistry r).owner? n.path = some u.decl.path := by
  simp only [mem_typesOf_nested_of_mem_units hu hm]
  constructor
  · rintro ⟨_, ⟨q, hnest, ho, rfl⟩, himp, rfl⟩
    obtain ⟨n, hn, rfl⟩ := Hierarchy.mem_paths.mp (Hierarchy.explicit_declAt.mp himp)
    have hnode : ((Hierarchy.ofRegistry r).declAt n.path).node = n :=
      Hierarchy.nodeAt_of_mem hn
    rw [hnode]
    exact ⟨hn, (Hierarchy.isNested_iff_of_mem hn).mp hnest, ho⟩
  · rintro ⟨hn, ht, ho⟩
    exact ⟨_, ⟨n.path, (Hierarchy.isNested_iff_of_mem hn).mpr ht, ho, rfl⟩,
      Hierarchy.explicit_declAt.mpr (Hierarchy.mem_paths_of_mem hn), Hierarchy.nodeAt_of_mem hn⟩

theorem exists_implicit_iff (hu : r.units.result = .ok units) {u : TypeUnit} (hm : u ∈ units)
    {q : Path} : (∃ t ∈ TypeDecl.typesOf u.decl.nested, t.implicit = true ∧ t.path = q) ↔
      q ∉ r.paths ∧ ∃ n ∈ r.nodes, (Hierarchy.ofRegistry r).isTopLevel n.path = false ∧
        (Hierarchy.ofRegistry r).owner? n.path = some u.decl.path ∧
        ∃ s, r.structuralParent? n.path = some s ∧ s ∈ q.ancestors ∧ q ∈ n.path.ancestors := by
  simp only [mem_typesOf_nested_of_mem_units hu hm]
  constructor
  · rintro ⟨_, ⟨p, hnest, ho, rfl⟩, himp, rfl⟩
    rw [Hierarchy.path_declAt]
    have hr := Hierarchy.implicit_declAt.mp himp
    obtain ⟨n, hn, ht, hgap⟩ := (Hierarchy.isNested_iff_of_not_mem hr).mp hnest
    rw [Hierarchy.owner?_of_mem_gap hgap] at ho
    obtain ⟨s, hs⟩ := Hierarchy.exists_structuralParent? ho
    exact ⟨hr, n, hn, ht, ho, s, hs, ((mem_gap_iff hs).mp hgap).2⟩
  · rintro ⟨hr, n, hn, ht, ho, s, hs, hbetween⟩
    have hgap : q ∈ r.gap n.path := (mem_gap_iff hs).mpr ⟨hr, hbetween⟩
    have hnest := (Hierarchy.isNested_iff_of_not_mem (h := Hierarchy.ofRegistry r) hr).mpr
      ⟨n, hn, ht, hgap⟩
    have hq : (Hierarchy.ofRegistry r).owner? q = some u.decl.path := by
      rw [Hierarchy.owner?_of_mem_gap hgap, ho]
    exact ⟨_, ⟨q, hnest, hq, rfl⟩, Hierarchy.implicit_declAt.mpr hr, Hierarchy.path_declAt q⟩

theorem exists_text_of_mem_nested (hu : r.units.result = .ok units) {u : TypeUnit}
    (hm : u ∈ units) {t : TypeDecl} (ht : t ∈ u.types) {e : TypeDecl} (he : e ∈ t.nested) :
    ∃ s : Segment, e.path.text = t.path.text ++ "." ++ s.text := by
  obtain ⟨q, -, rfl⟩ := (mem_types_of_mem_units hu hm).mp ht
  obtain ⟨k, rfl, hk⟩ := Hierarchy.nested_declAt he
  obtain ⟨s, rfl⟩ := Path.parent?_eq_some.mp hk
  rw [Hierarchy.path_declAt, Hierarchy.path_declAt]
  exact ⟨s, rfl⟩

theorem forall_path_ne_iff (hu : r.units.result = .ok units) {n : Node} (hn : n ∈ r.nodes) :
    (∀ u ∈ units, ∀ t ∈ u.types, t.path ≠ n.path) ↔
      (Hierarchy.ofRegistry r).isTopLevel n.path = false ∧
        (Hierarchy.ofRegistry r).owner? n.path = none := by
  have hr : n.path ∈ r.paths := List.mem_map_of_mem hn
  constructor
  · intro hnone
    cases ht : (Hierarchy.ofRegistry r).isTopLevel n.path with
    | true =>
      obtain ⟨u, hm, hp⟩ := exists_mem_units hu (Hierarchy.isUnit_iff.mpr ⟨hr, ht⟩)
      exact absurd hp (hnone u hm u.decl (TypeDecl.self_mem_types _))
    | false =>
      refine ⟨rfl, ?_⟩
      cases ho : (Hierarchy.ofRegistry r).owner? n.path with
      | none => rfl
      | some o =>
        obtain ⟨u, hm, rfl⟩ := exists_mem_units hu (Hierarchy.isUnit_of_owner? ho)
        have hnest := (Hierarchy.isNested_iff_of_mem (h := Hierarchy.ofRegistry r) hn).mpr ht
        have hmem := (mem_types_of_mem_units hu hm).mpr ⟨n.path, .inr ⟨hnest, ho⟩, rfl⟩
        exact absurd (Hierarchy.path_declAt _) (hnone u hm _ hmem)
  · rintro ⟨ht, ho⟩ u hm t htypes hp
    obtain ⟨q, hq, rfl⟩ := (mem_types_of_mem_units hu hm).mp htypes
    rw [Hierarchy.path_declAt] at hp
    subst hp
    rcases hq with hq | ⟨-, ho'⟩
    · have hunit := (exists_declAt_of_mem_units hu hm).1
      rw [← hq] at hunit
      simp [(Hierarchy.isUnit_iff.mp hunit).2] at ht
    · simp [ho] at ho'

theorem count_orphanSkipped (hu : r.units.result = .ok units) (p : Path) :
    r.units.log.count (.orphanSkipped p) =
      if ∃ n ∈ r.nodes, n.path = p ∧ (Hierarchy.ofRegistry r).isTopLevel p = false ∧
        (Hierarchy.ofRegistry r).owner? p = none then 1 else 0 := by
  have hshared : Event.orphanSkipped p ∉
      if r.sharedLeaves.isEmpty then [] else [Event.leavesShared r.sharedLeaves] := by
    split <;> simp
  have hnodup : ((r.nodes.filter (Hierarchy.ofRegistry r).isOrphan).map
      fun n => Event.orphanSkipped n.path).Nodup := by
    refine List.Nodup.map_on ?_ ((List.Nodup.of_map _ r.nodup).filter _)
    intro n hn m hm he
    exact List.inj_on_of_nodup_map r.nodup (List.mem_of_mem_filter hn)
      (List.mem_of_mem_filter hm) (Event.orphanSkipped.inj he)
  rw [(units_eq_ok hu).2.2, List.count_append, List.count_eq_zero_of_not_mem hshared,
    Nat.zero_add, hnodup.count]
  congr 1
  simp only [List.mem_map, List.mem_filter, Event.orphanSkipped.injEq, Hierarchy.isOrphan,
    Bool.and_eq_true, Bool.not_eq_true', Option.isNone_iff_eq_none, eq_iff_iff]
  grind

theorem placement (hu : r.units.result = .ok units) : Placement r units r.units.log where
  topLevel n hn := Hierarchy.isTopLevel_ofRegistry hn
  distinct := nodup_type_paths hu
  topLevelNodes := map_node_units hu
  explicit u hm := by
    obtain ⟨hunit, hdecl⟩ := exists_declAt_of_mem_units hu hm
    rw [hdecl]
    exact Hierarchy.explicit_declAt.mpr (Hierarchy.isUnit_iff.mp hunit).1
  owners p o ho := exists_mem_units hu (Hierarchy.isUnit_of_owner? ho)
  ownerless p := by
    rw [Hierarchy.owner?, List.find?_eq_none]
    simp only [Bool.and_eq_true, not_and, Bool.not_eq_true]
    exact forall₂_congr fun q _ => imp_congr_left contains_iff
  nested u hm n := exists_explicit_iff hu hm
  implicit u hm q := exists_implicit_iff hu hm
  step u hm t ht e he := exists_text_of_mem_nested hu hm ht he
  skipped n hn := forall_path_ne_iff hu hn
  reported := count_orphanSkipped hu

/-- Leaves that are shared beside a unit, below it, behind a gap, and where no unit is. -/
def sample : Registry :=
  .ofNodes <| ["Vehicle", "Vehicle.Row", "Vehicle.Cabin.Door", "Vehicle.Cabin.Door.Row",
    "Vehicle.Cabin.Seat.Row", "Vehicle.Cabin.Seat.Row.Tint", "Trailer.Row"].map fun p =>
      .plainBranch (.ofText p)

theorem placement_sample : ∃ units, sample.units.result = .ok units ∧ units ≠ [] ∧
    Placement sample units sample.units.log := by
  have hnonempty : sample.units.result.toOption.any (!·.isEmpty) = true := by decide +kernel
  cases hu : sample.units.result with
  | error e => simp [hu, Except.toOption] at hnonempty
  | ok units =>
    refine ⟨units, rfl, ?_, placement hu⟩
    rintro rfl
    simp [hu, Except.toOption] at hnonempty

end Registry

end SignalTree
