import SignalTree.Proofs.Scope

/-!
The scopes that laying out a unit comes through. The members handed down to a scope are the nodes
that show in it (`Reaches.exposed`), so its slots never mix a registered path with the members of
an implicit type, and whatever is entered lies deeper (`Reaches.layout_sound`).
-/
namespace SignalTree

namespace Path

theorem text_of_mem_ancestors {p a : Path} (ha : a ∈ p.ancestors) :
    ∃ rest, p.text = a.text ++ "." ++ rest := by
  induction p with
  | root s => simp at ha
  | child p s ih =>
    rcases List.mem_cons.mp ha with rfl | ha
    · exact ⟨s.text, rfl⟩
    · obtain ⟨rest, hrest⟩ := ih ha
      exact ⟨rest ++ "." ++ s.text, by simp [text, hrest, String.append_assoc]⟩

end Path

namespace Hierarchy

variable (h : Hierarchy)

/-- The slots of some members, with a level for every step down to the deepest registered path. The
slots of a unit are those of its children. -/
def layout (scope : Path) (members : List Node) : List Slot :=
  h.slotsFor (h.registry.depth - scope.depth) scope members

/-- The slot of one group of members, with the layout of what lies in it. -/
def slotOf (key : Path) (group : List Node) : Slot :=
  match declared? key group with
  | some n =>
    if h.isTopLevel key then .unit key else .nested n false (h.layout key (h.childrenOf key))
  | none => .nested (.plainBranch key) true (h.layout key group)

/-- Where the layout of a scope goes on: with the children of a type that it declares, and with
the members around which it puts an implicit type. -/
inductive Enters (scope : Path) (members : List Node) : Path → List Node → Prop
  | declared {key : Path} {group : List Node} {n : Node}
      (hgroup : (key, group) ∈ h.groups scope members) (hn : declared? key group = some n)
      (ht : h.isTopLevel key = false) : Enters scope members key (h.childrenOf key)
  | implied {key : Path} {group : List Node} (hgroup : (key, group) ∈ h.groups scope members)
      (hn : declared? key group = none) : Enters scope members key group

/-- The scopes and members that the layout of the unit of some node comes through. -/
inductive Reaches : Path → List Node → Prop
  | unit {n : Node} (hn : n ∈ h.registry.nodes) : Reaches n.path (h.childrenOf n.path)
  | enter {scope key : Path} {members group : List Node} (hr : Reaches scope members)
      (he : h.Enters scope members key group) : Reaches key group

/-- What holds of every scope that is laid out. -/
structure LayoutSound (scope : Path) (members : List Node) : Prop where
  below : ∀ n ∈ members, n ∈ h.registry.nodes ∧ scope ∈ n.path.ancestors ∧
    ∃ rest, n.path.text = scope.text ++ "." ++ rest
  direct : ∀ n ∈ members, ∀ p ∈ h.registry.paths, scope ∈ p.ancestors → p ∉ n.path.ancestors
  /-- The scope is the structural parent of all members, or lies below it and has no definition. -/
  anchored : (scope ∈ h.registry.paths ∧
      ∀ n ∈ members, h.registry.structuralParent? n.path = some scope) ∨
    (scope ∉ h.registry.paths ∧ members ≠ [] ∧ ∃ q ∈ h.registry.paths, q ∈ scope.ancestors ∧
      ∀ n ∈ members, h.registry.structuralParent? n.path = some q ∧ h.isTopLevel n.path = false)
  placed : ∀ n ∈ members, ∃! slot, slot ∈ h.groups scope members ∧ n ∈ slot.2
  registered : ∀ key group, (key, group) ∈ h.groups scope members → key ∈ h.registry.paths →
    ∃ n ∈ members, n.path = key ∧ group = [n] ∧ declared? key group = some n
  implied : ∀ key group, (key, group) ∈ h.groups scope members → key ∉ h.registry.paths →
    declared? key group = none ∧ group ≠ [] ∧
      ∀ n ∈ group, n ∈ members ∧ h.isTopLevel n.path = false ∧ key ∈ n.path.ancestors
  /-- Towards a member with a shared leaf, unless it lies right there, leads a first segment. -/
  steps : ∀ n ∈ members, h.isTopLevel n.path = false → n.path.parent? ≠ some scope →
    ∃ (s : Segment) (rest : String), n.path.text = scope.text ++ "." ++ s.text ++ "." ++ rest ∧
      Path.stepBelow? scope n.path = some (.child scope s)
  deeper : ∀ key group, h.Enters scope members key group →
    scope ∈ key.ancestors ∧ ∃ p ∈ h.registry.paths, key ∈ p :: p.ancestors
  /-- The levels never run out, so the layout goes on into all scopes it enters. -/
  unfolds : h.layout scope members =
    (h.groups scope members).map fun slot => h.slotOf slot.1 slot.2

variable {h} {scope key : Path} {members group : List Node}

theorem mem_groups_exposed : (key, group) ∈ h.groups scope (h.exposed scope) ↔
    key ∈ h.keys scope ∧ group = h.grouped scope key := by
  rw [groups_exposed, List.mem_map]
  constructor
  · rintro ⟨k, hk, he⟩
    cases he
    exact ⟨hk, rfl⟩
  · rintro ⟨hk, rfl⟩
    exact ⟨key, hk, rfl⟩

theorem mem_grouped {n : Node} :
    n ∈ h.grouped scope key ↔ n ∈ h.exposed scope ∧ h.slotPath scope n.path = key := by
  simp [grouped]

theorem layout_exposed (scope : Path) : h.layout scope (h.exposed scope) =
    (h.groups scope (h.exposed scope)).map fun slot => h.slotOf slot.1 slot.2 := by
  change h.slotsAt scope = _
  rw [slotsAt_eq, groups_exposed, List.map_map]
  apply List.map_congr_left
  intro key hk
  change h.slotAt key = h.slotOf key (h.grouped scope key)
  unfold slotOf
  by_cases hr : key ∈ h.registry.paths
  · rw [declared?_grouped_of_mem hk hr, childrenOf_eq_exposed hr]
    cases ht : h.isTopLevel key with
    | true => simp [slotAt, isUnit, hr, ht]
    | false => simp [slotAt, isUnit, hr, ht, slotsAt, layout]
  · rw [grouped_of_not_mem hk hr, declared?_exposed hr]
    simp [slotAt, isUnit, Registry.contains_eq_false.mpr hr, nodeAt_of_not_mem hr, slotsAt, layout]

theorem Enters.of_exposed (he : h.Enters scope (h.exposed scope) key group) :
    group = h.exposed key ∧ key.parent? = some scope ∧ h.IsNested key ∧
      (key ∈ h.registry.paths ∨ group ≠ []) := by
  cases he with
  | declared hgroup hn ht =>
    obtain ⟨hk, rfl⟩ := mem_groups_exposed.mp hgroup
    have hr : key ∈ h.registry.paths := by
      by_contra hr
      rw [grouped_of_not_mem hk hr, declared?_exposed hr] at hn
      cases hn
    have hu : h.isUnit key = false := by simp [isUnit, ht]
    obtain ⟨hpar, hnested⟩ := (mem_keys_iff_of_not_isUnit hu).mp hk
    exact ⟨childrenOf_eq_exposed hr, hpar, hnested, .inl hr⟩
  | implied hgroup hn =>
    obtain ⟨hk, rfl⟩ := mem_groups_exposed.mp hgroup
    have hr : key ∉ h.registry.paths := by
      intro hr
      rw [declared?_grouped_of_mem hk hr] at hn
      cases hn
    have hu : h.isUnit key = false := by simp [isUnit, hr]
    obtain ⟨hpar, hnested⟩ := (mem_keys_iff_of_not_isUnit hu).mp hk
    obtain ⟨n, hn, hslot⟩ := mem_keys.mp hk
    have hmem : n ∈ h.grouped scope key := mem_grouped.mpr ⟨hn, hslot⟩
    exact ⟨grouped_of_not_mem hk hr, hpar, hnested, .inr (List.ne_nil_of_mem hmem)⟩

theorem Reaches.exposed (hr : h.Reaches scope members) : members = h.exposed scope ∧
    (scope ∈ h.registry.paths ∨
      members ≠ [] ∧ ∃ q, h.registry.structuralParent? scope = some q) := by
  induction hr with
  | unit hn =>
    have hpath := mem_paths_of_mem hn
    exact ⟨childrenOf_eq_exposed hpath, .inl hpath⟩
  | enter _ he ih =>
    obtain ⟨rfl, hanchor⟩ := ih
    obtain ⟨hgroup, hpar, -, hkey⟩ := he.of_exposed
    refine ⟨hgroup, hkey.imp_right fun hne => ⟨hne, ?_⟩⟩
    rw [Registry.structuralParent?_of_parent? _ hpar]
    split
    · exact ⟨_, rfl⟩
    · next hscope =>
      rw [Registry.contains_iff] at hscope
      exact (hanchor.resolve_left hscope).2

theorem structuralParent?_of_mem_exposed {n : Node} (hn : n ∈ h.exposed scope)
    (hr : scope ∈ h.registry.paths) : h.registry.structuralParent? n.path = some scope := by
  refine (mem_exposed.mp hn).2.resolve_right fun hgap => ?_
  exact Registry.not_mem_paths_of_mem_gap hgap.2 hr

theorem mem_gap_of_mem_exposed_of_not_mem {n : Node} (hn : n ∈ h.exposed scope)
    (hr : scope ∉ h.registry.paths) :
    h.isTopLevel n.path = false ∧ scope ∈ h.registry.gap n.path := by
  refine (mem_exposed.mp hn).2.resolve_left fun hp => ?_
  exact hr (Registry.mem_paths_of_structuralParent? hp)

theorem exists_step {n : Node} (hs : scope ∈ n.path.ancestors) (hpar : n.path.parent? ≠ some scope) :
    ∃ (s : Segment) (rest : String), n.path.text = scope.text ++ "." ++ s.text ++ "." ++ rest ∧
      Path.stepBelow? scope n.path = some (.child scope s) := by
  obtain ⟨q, hq⟩ := Path.exists_stepBelow? hs
  obtain ⟨hqpar, hmem⟩ := Path.stepBelow?_eq_some.mp hq
  obtain ⟨s, rfl⟩ := Path.parent?_eq_some.mp hqpar
  have hanc : Path.child scope s ∈ n.path.ancestors := by
    rcases List.mem_cons.mp hmem with he | hanc
    · exact absurd (he ▸ hqpar) hpar
    · exact hanc
  obtain ⟨rest, hrest⟩ := Path.text_of_mem_ancestors hanc
  exact ⟨s, rest, hrest, hq⟩

theorem existsUnique_slot {n : Node} (hn : n ∈ h.exposed scope) :
    ∃! slot, slot ∈ h.groups scope (h.exposed scope) ∧ n ∈ slot.2 := by
  have hkey := mem_keys.mpr ⟨n, hn, rfl⟩
  refine ⟨(h.slotPath scope n.path, h.grouped scope (h.slotPath scope n.path)),
    ⟨mem_groups_exposed.mpr ⟨hkey, rfl⟩, mem_grouped.mpr ⟨hn, rfl⟩⟩, ?_⟩
  rintro ⟨key, group⟩ ⟨hgroup, hmem⟩
  obtain ⟨-, rfl⟩ := mem_groups_exposed.mp hgroup
  rw [(mem_grouped.mp hmem).2]

/-- Every scope that the unit of a registered node comes through is laid out soundly, whatever
leaves count as shared. -/
theorem Reaches.layout_sound (hr : h.Reaches scope members) : h.LayoutSound scope members := by
  obtain ⟨rfl, hanchor⟩ := hr.exposed
  constructor
  case below =>
    intro n hn
    have hs := scope_mem_ancestors hn
    exact ⟨(mem_exposed.mp hn).1, hs, Path.text_of_mem_ancestors hs⟩
  case direct =>
    intro n hn p hp hs hmem
    exact Registry.not_mem_paths_of_mem_gap (mem_gap_of_mem_exposed hn hmem hs) hp
  case anchored =>
    by_cases hscope : scope ∈ h.registry.paths
    · exact .inl ⟨hscope, fun n hn => structuralParent?_of_mem_exposed hn hscope⟩
    · obtain ⟨hne, q, hq⟩ := hanchor.resolve_left hscope
      refine .inr ⟨hscope, hne, q, Registry.mem_paths_of_structuralParent? hq,
        Registry.mem_ancestors_of_structuralParent? hq, fun n hn => ?_⟩
      obtain ⟨ht, hgap⟩ := mem_gap_of_mem_exposed_of_not_mem hn hscope
      exact ⟨by rw [← Registry.structuralParent?_of_mem_gap hgap, hq], ht⟩
  case placed => exact fun n hn => existsUnique_slot hn
  case registered =>
    intro key group hgroup hkey
    obtain ⟨hk, rfl⟩ := mem_groups_exposed.mp hgroup
    have hgrouped := grouped_of_mem hk hkey
    have hn : h.nodeAt key ∈ h.grouped scope key := by simp [hgrouped]
    exact ⟨h.nodeAt key, (mem_grouped.mp hn).1, path_nodeAt key, hgrouped,
      declared?_grouped_of_mem hk hkey⟩
  case implied =>
    intro key group hgroup hkey
    obtain ⟨hk, rfl⟩ := mem_groups_exposed.mp hgroup
    have hn : declared? key (h.grouped scope key) = none := by
      rw [grouped_of_not_mem hk hkey, declared?_exposed hkey]
    obtain ⟨-, -, -, hne⟩ := (Enters.implied hgroup hn).of_exposed
    refine ⟨hn, hne.resolve_left hkey, fun n hmem => ?_⟩
    have hexposed : n ∈ h.exposed key := grouped_of_not_mem hk hkey ▸ hmem
    exact ⟨(mem_grouped.mp hmem).1, (mem_gap_of_mem_exposed_of_not_mem hexposed hkey).1,
      scope_mem_ancestors hexposed⟩
  case steps => exact fun n hn _ hpar => exists_step (scope_mem_ancestors hn) hpar
  case deeper =>
    intro key group he
    obtain ⟨-, hpar, ⟨n, hn, -, hmem⟩, -⟩ := he.of_exposed
    refine ⟨Path.mem_ancestors_of_parent? hpar, n.path, mem_paths_of_mem hn, ?_⟩
    rcases hmem with rfl | hgap
    · exact List.mem_cons_self
    · exact List.mem_cons_of_mem _ (Registry.mem_ancestors_of_mem_gap hgap)
  case unfolds => exact layout_exposed scope

def gapSample : Registry :=
  .ofNodes (["Vehicle", "Vehicle..Door.Speed", "Vehicle..Door.Tint"].map fun p =>
    .plainBranch (.ofText p))

def gapSpeed : Node := .plainBranch (.ofText "Vehicle..Door.Speed")

def gapHierarchy : Hierarchy := of gapSample [gapSpeed.path.leaf]

theorem layout_sound_gapHierarchy :
    gapHierarchy.Reaches (.ofText "Vehicle..Door") [gapSpeed] ∧
      gapHierarchy.LayoutSound (.ofText "Vehicle..Door") [gapSpeed] := by
  have hroot : Node.plainBranch (.ofText "Vehicle") ∈ gapHierarchy.registry.nodes := by
    decide +kernel
  have hnameless : gapHierarchy.Enters (.ofText "Vehicle")
      (gapHierarchy.childrenOf (.ofText "Vehicle")) (.ofText "Vehicle.") [gapSpeed] :=
    .implied (by decide +kernel) (by decide +kernel)
  have hdoor : gapHierarchy.Enters (.ofText "Vehicle.") [gapSpeed]
      (.ofText "Vehicle..Door") [gapSpeed] :=
    .implied (by decide +kernel) (by decide +kernel)
  have hr : gapHierarchy.Reaches (.ofText "Vehicle..Door") [gapSpeed] :=
    .enter (.enter (.unit hroot) hnameless) hdoor
  exact ⟨hr, hr.layout_sound⟩

end Hierarchy

end SignalTree
