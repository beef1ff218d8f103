import SignalTree.Proofs.Placement

/-!
Children and parents. The scopes of a hierarchy are laid out downwards and the
reference to a parent is read upwards along the path; both find the same types.
-/
namespace SignalTree

namespace Hierarchy

variable {h : Hierarchy}

theorem mem_keys_iff {p k : Path} : k ∈ h.keys p ↔
    (h.isUnit k = true ∧ h.registry.structuralParent? k = some p) ∨
      (h.isUnit k = false ∧ k ∈ h.nestedKeys p) := by
  cases hk : h.isUnit k with
  | true => simp [mem_keys_iff_of_isUnit hk]
  | false => simp [mem_nestedKeys, hk, mem_keys_iff_of_not_isUnit hk]

theorem mem_ancestors_of_mem_keys {p k : Path} (hk : k ∈ h.keys p) : p ∈ k.ancestors := by
  rcases mem_keys_iff.mp hk with ⟨-, hs⟩ | ⟨-, hn⟩
  · exact Registry.mem_ancestors_of_structuralParent? hs
  · exact Path.mem_ancestors_of_parent? (mem_nestedKeys_iff.mp hn).1

theorem owner?_of_structuralParent? {p s : Path} (hs : h.registry.structuralParent? p = some s) :
    h.owner? p = if h.isUnit s then some s else h.owner? s := by
  have hgap : (h.registry.gap p).find? h.isUnit = none := by
    rw [List.find?_eq_none]
    intro q hq
    simp [isUnit, Registry.contains_eq_false.mpr (Registry.not_mem_paths_of_mem_gap hq)]
  change p.ancestors.find? h.isUnit = _
  rw [Registry.ancestors_eq hs, List.find?_append, hgap, List.find?_cons]
  cases h.isUnit s <;> rfl

theorem trail_eq {p s o : Path} (hs : h.registry.structuralParent? p = some s)
    (ho : h.owner? p = some o) : h.trail p = (s :: s.ancestors).takeWhile (· != o) := by
  have hdrop : p.ancestors.dropWhile (!h.registry.contains ·) = s :: s.ancestors := by
    have hsplit : h.registry.gap p ++ p.ancestors.dropWhile (!h.registry.contains ·) =
        h.registry.gap p ++ s :: s.ancestors := by
      rw [Registry.gap, List.takeWhile_append_dropWhile]
      exact Registry.ancestors_eq hs
    exact List.append_cancel_left hsplit
  simp only [trail, hdrop, ho]
  congr 1
  funext q
  rw [Bool.eq_iff_iff, bne_iff_ne, bne_iff_ne]
  exact ⟨fun hne e => hne (e ▸ rfl), fun hne e => hne (Option.some.inj e).symm⟩

theorem isChain_takeWhile {o q : Path} (hb : h.Below o q) (ho : h.isUnit o = true) :
    List.IsChain (fun a b => a ∈ h.nestedKeys b)
      ((q :: q.ancestors).takeWhile (· != o) ++ [o]) := by
  have hne {q : Path} (hb : h.Below o q) : (q != o) = true := by
    rw [bne_iff_ne]
    rintro rfl
    simp [isUnit_of_isNested (isNested_of_below hb)] at ho
  induction hb with
  | @single q hk =>
    rw [Path.ancestors_of_parent? (mem_nestedKeys_iff.mp hk).1]
    simpa [hne (.single hk)] using hk
  | @tail p q hb hk ih =>
    rw [Path.ancestors_of_parent? (mem_nestedKeys_iff.mp hk).1,
      List.takeWhile_cons_of_pos (p := (· != o)) (hne (hb.tail hk))]
    rw [List.takeWhile_cons_of_pos (p := (· != o)) (hne hb)] at ih ⊢
    exact List.isChain_cons_cons.mpr ⟨hk, ih⟩

theorem isChain_trail {p o : Path} (ho : h.owner? p = some o) :
    List.IsChain (fun a b => a ∈ h.nestedKeys b) (h.trail p ++ [o]) := by
  obtain ⟨s, hs⟩ := exists_structuralParent? ho
  have hu := isUnit_of_owner? ho
  rw [trail_eq hs ho]
  rw [owner?_of_structuralParent? hs] at ho
  cases hsu : h.isUnit s with
  | true =>
    rw [if_pos hsu, Option.some.injEq] at ho
    simp [ho]
  | false =>
    rw [if_neg (by simp [hsu])] at ho
    have hr := Registry.mem_paths_of_structuralParent? hs
    obtain ⟨n, hn, rfl⟩ := mem_paths.mp hr
    have ht : h.isTopLevel n.path = false := by simpa [isUnit, hr] using hsu
    exact isChain_takeWhile ((below_iff hu).mpr ⟨(isNested_iff_of_mem hn).mpr ht, ho⟩) hu

/-- The types that the reference to a parent names, outermost first. -/
def chainAt (h : Hierarchy) (p : Path) : List TypeDecl := (h.trail p).reverse.map h.declAt

theorem isChain_chainAt {p o : Path} (ho : h.owner? p = some o) :
    List.IsChain (fun a b => b ∈ a.nested) (h.declAt o :: h.chainAt p) ∧
      ∃ s, h.registry.structuralParent? p = some s ∧
        (h.chainAt p).getLastD (h.declAt o) = h.declAt s := by
  obtain ⟨s, hs⟩ := exists_structuralParent? ho
  constructor
  · -- The trail runs outward from the structural parent, the chain inward from the unit.
    have hrev : h.declAt o :: h.chainAt p = ((h.trail p ++ [o]).map h.declAt).reverse := by
      simp [chainAt]
    rw [hrev, List.isChain_reverse, List.isChain_map]
    refine (isChain_trail ho).imp ?_
    intro a b hab
    rw [declAt_nested]
    exact List.mem_map_of_mem hab
  · refine ⟨s, hs, ?_⟩
    rw [chainAt, trail_eq hs ho]
    by_cases hso : s = o
    · simp [hso]
    · rw [List.takeWhile_cons_of_pos (p := (· != o)) (bne_iff_ne.mpr hso)]
      simp

/-- The paths that have a type. -/
def IsPlaced (h : Hierarchy) (p : Path) : Prop :=
  h.isUnit p = true ∨ h.IsNested p ∧ ∃ o, h.owner? p = some o

theorem exists_owner?_of_mem_keys {p k : Path} (hp : h.IsPlaced p) (hk : k ∈ h.keys p) :
    ∃ o, h.owner? k = some o := by
  have hstep : h.owner? k = if h.isUnit p then some p else h.owner? p := by
    rcases mem_keys_iff.mp hk with ⟨-, hs⟩ | ⟨-, hn⟩
    · exact owner?_of_structuralParent? hs
    · exact owner?_of_parent? (mem_nestedKeys_iff.mp hn).1
  cases hpu : h.isUnit p with
  | true => exact ⟨p, by rw [hstep, if_pos hpu]⟩
  | false =>
    rcases hp with hp | ⟨-, o, ho⟩
    · simp [hp] at hpu
    · exact ⟨o, by rw [hstep, if_neg (by simp [hpu]), ho]⟩

end Hierarchy

def ChildRef.RefersTo (c : ChildRef) (u : TypeUnit) : Prop := c.kind = .unit ∧ c.name = u.decl.name

instance (c : ChildRef) (u : TypeUnit) : Decidable (c.RefersTo u) :=
  inferInstanceAs (Decidable (_ ∧ _))

def Contains (units : List TypeUnit) (t t' : TypeDecl) : Prop :=
  t ∈ units.flatMap TypeUnit.types ∧ t' ∈ units.flatMap TypeUnit.types ∧
    ∃ c ∈ t.children, c.path = t'.path

/-- References to children and to parents agree and lead to no cycle. -/
structure Forest (r : Registry) (units : List TypeUnit) : Prop where
  unitChild : ∀ t ∈ units.flatMap TypeUnit.types, ∀ c ∈ t.children, c.kind = .unit →
    ∃ u ∈ units, u.decl.name = c.name ∧ u.decl.path = c.path ∧
      r.structuralParent? u.decl.path = some t.path
  nestedChild : ∀ t ∈ units.flatMap TypeUnit.types, ∀ c ∈ t.children, c.kind = .nested →
    ∃ d ∈ t.nested, d.name = c.name ∧ d.path = c.path ∧ ∀ e ∈ t.nested, e.path = c.path → e = d
  /-- The parent of a unit is the end of a chain of nested types. It has the unit as a
  child, and nothing else does. -/
  parent : ∀ u ∈ units, ∀ o, (Hierarchy.ofRegistry r).owner? u.decl.path = some o →
    ∃ ref, u.parent = some ref ∧ ∃ v ∈ units, ∃ chain : List TypeDecl,
      v.decl.path = o ∧ ref.unit = v.decl.name ∧ ref.nested = chain.map TypeDecl.name ∧
      List.IsChain (fun a b => b ∈ a.nested) (v.decl :: chain) ∧
      r.structuralParent? u.decl.path = some (chain.getLastD v.decl).path ∧
      (chain.getLastD v.decl).children.countP (·.RefersTo u) = 1 ∧
      ∀ t ∈ units.flatMap TypeUnit.types, (∃ c ∈ t.children, c.RefersTo u) →
        t = chain.getLastD v.decl
  root : ∀ u ∈ units, (Hierarchy.ofRegistry r).owner? u.decl.path = none →
    u.parent = none ∧ ∀ t ∈ units.flatMap TypeUnit.types, ∀ c ∈ t.children, ¬c.RefersTo u
  below : ∀ t ∈ units.flatMap TypeUnit.types, ∀ c ∈ t.children, t.path ∈ c.path.ancestors
  acyclic : ∀ t, ¬Relation.TransGen (Contains units) t t

namespace Registry

variable {r : Registry} {units : List TypeUnit}

theorem mem_flatMap_types (hu : r.units.result = .ok units) {t : TypeDecl} :
    t ∈ units.flatMap TypeUnit.types ↔
      ∃ q, (Hierarchy.ofRegistry r).IsPlaced q ∧ t = (Hierarchy.ofRegistry r).declAt q := by
  rw [List.mem_flatMap]
  constructor
  · rintro ⟨u, hm, ht⟩
    obtain ⟨q, hq, rfl⟩ := (mem_types_of_mem_units hu hm).mp ht
    refine ⟨q, ?_, rfl⟩
    rcases hq with rfl | ⟨hnest, ho⟩
    · exact .inl (exists_declAt_of_mem_units hu hm).1
    · exact .inr ⟨hnest, _, ho⟩
  · rintro ⟨q, hq | ⟨hnest, o, ho⟩, rfl⟩
    · obtain ⟨u, hm, rfl⟩ := exists_mem_units hu hq
      exact ⟨u, hm, (mem_types_of_mem_units hu hm).mpr ⟨_, .inl rfl, rfl⟩⟩
    · obtain ⟨u, hm, rfl⟩ := exists_mem_units hu (Hierarchy.isUnit_of_owner? ho)
      exact ⟨u, hm, (mem_types_of_mem_units hu hm).mpr ⟨q, .inr ⟨hnest, ho⟩, rfl⟩⟩

theorem eq_declAt (hu : r.units.result = .ok units) {t : TypeDecl}
    (ht : t ∈ units.flatMap TypeUnit.types) : t = (Hierarchy.ofRegistry r).declAt t.path := by
  obtain ⟨q, -, rfl⟩ := (mem_flatMap_types hu).mp ht
  rw [Hierarchy.path_declAt]

theorem exists_key_of_mem_children (hu : r.units.result = .ok units) {t : TypeDecl}
    (ht : t ∈ units.flatMap TypeUnit.types) {c : ChildRef} (hc : c ∈ t.children) :
    ∃ k ∈ (Hierarchy.ofRegistry r).keys t.path, c = (Hierarchy.ofRegistry r).refAt k := by
  rw [eq_declAt hu ht, Hierarchy.declAt_children] at hc
  obtain ⟨k, hk, rfl⟩ := List.mem_map.mp hc
  exact ⟨k, hk, rfl⟩

theorem mem_nestedKeys_of_mem_nested (hu : r.units.result = .ok units) {t : TypeDecl}
    (ht : t ∈ units.flatMap TypeUnit.types) {d : TypeDecl} (hd : d ∈ t.nested) :
    d.path ∈ (Hierarchy.ofRegistry r).nestedKeys t.path := by
  rw [eq_declAt hu ht, Hierarchy.declAt_nested] at hd
  obtain ⟨k, hk, rfl⟩ := List.mem_map.mp hd
  rwa [Hierarchy.path_declAt]

theorem name_of_mem_units (hu : r.units.result = .ok units) {u : TypeUnit} (hm : u ∈ units) :
    u.decl.name = u.decl.path.typeName := by
  rw [(exists_declAt_of_mem_units hu hm).2, Hierarchy.path_declAt]
  rfl

theorem refersTo_refAt_iff (hu : r.units.result = .ok units) {u : TypeUnit} (hm : u ∈ units)
    {k : Path} : ((Hierarchy.ofRegistry r).refAt k).RefersTo u ↔ k = u.decl.path := by
  constructor
  · rintro ⟨hkind, hname⟩
    have hk : (Hierarchy.ofRegistry r).isUnit k = true := by
      simpa [Hierarchy.refAt] using hkind
    obtain ⟨v, hv, rfl⟩ := exists_mem_units hu hk
    have hname : v.decl.name = u.decl.name := by rw [name_of_mem_units hu hv, ← hname]; rfl
    rw [List.inj_on_of_nodup_map (units_eq_ok hu).2.1 hv hm hname]
  · rintro rfl
    refine ⟨?_, (name_of_mem_units hu hm).symm⟩
    simp [Hierarchy.refAt, (exists_declAt_of_mem_units hu hm).1]

theorem refersTo_iff (hu : r.units.result = .ok units) {u : TypeUnit} (hm : u ∈ units) {p : Path} :
    (∃ c ∈ ((Hierarchy.ofRegistry r).declAt p).children, c.RefersTo u) ↔
      r.structuralParent? u.decl.path = some p := by
  rw [Hierarchy.declAt_children]
  simp only [List.mem_map, exists_exists_and_eq_and, refersTo_refAt_iff hu hm, exists_eq_right]
  exact Hierarchy.mem_keys_iff_of_isUnit (exists_declAt_of_mem_units hu hm).1

theorem countP_refersTo (hu : r.units.result = .ok units) {u : TypeUnit} (hm : u ∈ units) {p : Path}
    (hp : r.structuralParent? u.decl.path = some p) :
    ((Hierarchy.ofRegistry r).declAt p).children.countP (·.RefersTo u) = 1 := by
  have hmem : u.decl.path ∈ (Hierarchy.ofRegistry r).keys p :=
    (Hierarchy.mem_keys_iff_of_isUnit (exists_declAt_of_mem_units hu hm).1).mpr hp
  rw [Hierarchy.declAt_children, List.countP_map,
    ← List.count_eq_one_of_mem (Hierarchy.nodup_keys p) hmem, List.count_eq_countP]
  apply List.countP_congr
  intro k _
  simp [refersTo_refAt_iff hu hm]

theorem parent_of_mem_units (hu : r.units.result = .ok units) {u : TypeUnit} (hm : u ∈ units) :
    u.parent = (Hierarchy.ofRegistry r).parentRef? u.decl.path := by
  obtain ⟨n, hn, -, rfl⟩ := (mem_units hu).mp hm
  rfl

theorem exists_unit_of_mem_children (hu : r.units.result = .ok units) {t : TypeDecl}
    (ht : t ∈ units.flatMap TypeUnit.types) {c : ChildRef} (hc : c ∈ t.children)
    (hkind : c.kind = .unit) : ∃ u ∈ units, u.decl.name = c.name ∧ u.decl.path = c.path ∧
      r.structuralParent? u.decl.path = some t.path := by
  obtain ⟨k, hk, rfl⟩ := exists_key_of_mem_children hu ht hc
  have hku : (Hierarchy.ofRegistry r).isUnit k = true := by simpa [Hierarchy.refAt] using hkind
  obtain ⟨u, hm, rfl⟩ := exists_mem_units hu hku
  exact ⟨u, hm, name_of_mem_units hu hm, rfl, (Hierarchy.mem_keys_iff_of_isUnit hku).mp hk⟩

theorem exists_nested_of_mem_children (hu : r.units.result = .ok units) {t : TypeDecl}
    (ht : t ∈ units.flatMap TypeUnit.types) {c : ChildRef} (hc : c ∈ t.children)
    (hkind : c.kind = .nested) : ∃ d ∈ t.nested, d.name = c.name ∧ d.path = c.path ∧
      ∀ e ∈ t.nested, e.path = c.path → e = d := by
  obtain ⟨k, hk, rfl⟩ := exists_key_of_mem_children hu ht hc
  have hku : (Hierarchy.ofRegistry r).isUnit k = false := by simpa [Hierarchy.refAt] using hkind
  have hnested : k ∈ (Hierarchy.ofRegistry r).nestedKeys t.path := by
    simpa [hku] using Hierarchy.mem_keys_iff.mp hk
  rw [eq_declAt hu ht, Hierarchy.declAt_nested]
  refine ⟨(Hierarchy.ofRegistry r).declAt k, List.mem_map_of_mem hnested, rfl,
    Hierarchy.path_declAt k, fun e he hp => ?_⟩
  obtain ⟨k', -, rfl⟩ := List.mem_map.mp he
  rw [Hierarchy.path_declAt] at hp
  rw [hp]
  rfl

theorem exists_child_of_mem_nested (hu : r.units.result = .ok units) {t : TypeDecl}
    (ht : t ∈ units.flatMap TypeUnit.types) {d : TypeDecl} (hd : d ∈ t.nested) :
    ∃ c ∈ t.children, c.kind = .nested ∧ c.name = d.name ∧ c.path = d.path := by
  have hk := mem_nestedKeys_of_mem_nested hu ht hd
  have hku := (Hierarchy.mem_nestedKeys.mp hk).1
  have hname : d.path.typeName = d.name := by
    rw [eq_declAt hu ht, Hierarchy.declAt_nested] at hd
    obtain ⟨k, -, rfl⟩ := List.mem_map.mp hd
    rw [Hierarchy.path_declAt]
    rfl
  rw [eq_declAt hu ht, Hierarchy.declAt_children]
  refine ⟨_, List.mem_map_of_mem (Hierarchy.mem_keys_iff.mpr (.inr ⟨hku, hk⟩)), ?_, hname, rfl⟩
  simp [Hierarchy.refAt, hku]

theorem exists_chain_of_owner? (hu : r.units.result = .ok units) {u : TypeUnit} (hm : u ∈ units)
    {o : Path} (ho : (Hierarchy.ofRegistry r).owner? u.decl.path = some o) :
    ∃ ref, u.parent = some ref ∧ ∃ v ∈ units, ∃ chain : List TypeDecl,
      v.decl.path = o ∧ ref.unit = v.decl.name ∧ ref.nested = chain.map TypeDecl.name ∧
      List.IsChain (fun a b => b ∈ a.nested) (v.decl :: chain) ∧
      r.structuralParent? u.decl.path = some (chain.getLastD v.decl).path ∧
      (chain.getLastD v.decl).children.countP (·.RefersTo u) = 1 ∧
      ∀ t ∈ units.flatMap TypeUnit.types, (∃ c ∈ t.children, c.RefersTo u) →
        t = chain.getLastD v.decl := by
  obtain ⟨v, hv, rfl⟩ := exists_mem_units hu (Hierarchy.isUnit_of_owner? ho)
  have hdecl := (exists_declAt_of_mem_units hu hv).2
  obtain ⟨hchain, s, hs, hlast⟩ := Hierarchy.isChain_chainAt ho
  rw [← hdecl] at hchain hlast
  have hlist (t : TypeDecl) (ht : t ∈ units.flatMap TypeUnit.types)
      (hc : ∃ c ∈ t.children, c.RefersTo u) : t = (Hierarchy.ofRegistry r).declAt s := by
    obtain ⟨q, -, rfl⟩ := (mem_flatMap_types hu).mp ht
    have hq : r.structuralParent? u.decl.path = some q := (refersTo_iff hu hm).mp hc
    rw [Option.some.inj (hq.symm.trans hs)]
  refine ⟨_, by rw [parent_of_mem_units hu hm, Hierarchy.parentRef?, ho]; rfl, v, hv,
    (Hierarchy.ofRegistry r).chainAt u.decl.path, rfl, (name_of_mem_units hu hv).symm, ?_, hchain,
    ?_, ?_, ?_⟩
  · rw [Hierarchy.chainAt, List.map_map]
    rfl
  · rw [hlast, Hierarchy.path_declAt]
    exact hs
  · rw [hlast]
    exact countP_refersTo hu hm hs
  · rw [hlast]
    exact hlist

theorem parent_eq_none_of_owner? (hu : r.units.result = .ok units) {u : TypeUnit} (hm : u ∈ units)
    (ho : (Hierarchy.ofRegistry r).owner? u.decl.path = none) : u.parent = none := by
  rw [parent_of_mem_units hu hm, Hierarchy.parentRef?, ho]
  rfl

theorem not_refersTo_of_owner? (hu : r.units.result = .ok units) {u : TypeUnit} (hm : u ∈ units)
    (ho : (Hierarchy.ofRegistry r).owner? u.decl.path = none) {t : TypeDecl}
    (ht : t ∈ units.flatMap TypeUnit.types) : ∀ c ∈ t.children, ¬c.RefersTo u := by
  intro c hc href
  obtain ⟨q, hq, rfl⟩ := (mem_flatMap_types hu).mp ht
  have hk : u.decl.path ∈ (Hierarchy.ofRegistry r).keys q :=
    (Hierarchy.mem_keys_iff_of_isUnit (exists_declAt_of_mem_units hu hm).1).mpr
      ((refersTo_iff hu hm).mp ⟨c, hc, href⟩)
  obtain ⟨o, ho'⟩ := Hierarchy.exists_owner?_of_mem_keys hq hk
  simp [ho] at ho'

theorem mem_ancestors_of_mem_children (hu : r.units.result = .ok units) {t : TypeDecl}
    (ht : t ∈ units.flatMap TypeUnit.types) {c : ChildRef} (hc : c ∈ t.children) :
    t.path ∈ c.path.ancestors := by
  obtain ⟨k, hk, rfl⟩ := exists_key_of_mem_children hu ht hc
  exact Hierarchy.mem_ancestors_of_mem_keys hk

theorem depth_lt_of_contains (hu : r.units.result = .ok units) {t t' : TypeDecl}
    (hc : Contains units t t') : t.path.depth < t'.path.depth := by
  obtain ⟨ht, -, c, hc, hp⟩ := hc
  rw [← hp]
  exact Path.depth_lt_of_mem_ancestors (mem_ancestors_of_mem_children hu ht hc)

theorem forest (hu : r.units.result = .ok units) : Forest r units where
  unitChild _ ht _ hc := exists_unit_of_mem_children hu ht hc
  nestedChild _ ht _ hc := exists_nested_of_mem_children hu ht hc
  parent _ hm _ ho := exists_chain_of_owner? hu hm ho
  root _ hm ho :=
    ⟨parent_eq_none_of_owner? hu hm ho, fun _ ht => not_refersTo_of_owner? hu hm ho ht⟩
  below _ ht _ hc := mem_ancestors_of_mem_children hu ht hc
  acyclic t hcycle := by
    have hlt {t t' : TypeDecl} (hp : Relation.TransGen (Contains units) t t') :
        t.path.depth < t'.path.depth := by
      induction hp with
      | single hc => exact depth_lt_of_contains hu hc
      | tail _ hc ih => exact Nat.lt_trans ih (depth_lt_of_contains hu hc)
    exact Nat.lt_irrefl _ (hlt hcycle)

theorem forest_sample : ∃ units, sample.units.result = .ok units ∧
    (∃ u ∈ units, u.parent.isSome = true) ∧ Forest sample units := by
  have hparent : sample.units.result.toOption.any (·.any (·.parent.isSome)) = true := by
    decide +kernel
  cases hu : sample.units.result with
  | error e => simp [hu, Except.toOption] at hparent
  | ok units =>
    refine ⟨units, rfl, ?_, forest hu⟩
    simpa [hu, Except.toOption] using hparent

end Registry

end SignalTree
