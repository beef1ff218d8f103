import Mathlib.Data.List.Nodup
import SignalTree.Model.Hierarchy
import SignalTree.Proofs.Ancestors

/-!
What a scope holds, by its path alone. The members that are handed down from
scope to scope are always the nodes that `exposed` finds in the registry, so the
types of a unit unfold path by path (`declAt_children`, `declAt_nested`).
-/
namespace SignalTree

theorem nodup_eraseDups [BEq α] [LawfulBEq α] : (l : List α) → l.eraseDups.Nodup
  | [] => by simp
  | a :: l => by
    rw [List.eraseDups_cons, List.nodup_cons]
    exact ⟨by simp, nodup_eraseDups _⟩
termination_by l => l.length
decreasing_by
  simp only [List.length_cons]
  exact Nat.lt_succ_of_le (List.length_filter_le _ _)

namespace Hierarchy

variable (h : Hierarchy)

/-- The paths that have a type of their own file. -/
def isUnit (p : Path) : Bool := h.registry.contains p && h.isTopLevel p

/-- The paths that have a type inside another type: nodes that share their leaf, and
what no definition mentions right above them. -/
def IsNested (p : Path) : Prop :=
  ∃ n ∈ h.registry.nodes, h.isTopLevel n.path = false ∧ (p = n.path ∨ p ∈ h.registry.gap n.path)

/-- The nodes that show in the scope of a path: those right below it, and behind a
gap those with a shared leaf. -/
def exposed (scope : Path) : List Node :=
  h.registry.nodes.filter fun n =>
    decide (h.registry.structuralParent? n.path = some scope) ||
      !h.isTopLevel n.path && decide (scope ∈ h.registry.gap n.path)

/-- The paths of the slots of a scope, in order. -/
def keys (scope : Path) : List Path :=
  ((h.exposed scope).map fun n => h.slotPath scope n.path).eraseDups

def nodeAt (p : Path) : Node := (h.registry.get? p).getD (.plainBranch p)

def slotsAt (scope : Path) : List Slot :=
  h.slotsFor (h.registry.depth - scope.depth) scope (h.exposed scope)

def slotAt (p : Path) : Slot :=
  if h.isUnit p then .unit p else .nested (h.nodeAt p) (!h.registry.contains p) (h.slotsAt p)

variable {h}

theorem mem_exposed {scope : Path} {n : Node} : n ∈ h.exposed scope ↔
    n ∈ h.registry.nodes ∧ (h.registry.structuralParent? n.path = some scope ∨
      h.isTopLevel n.path = false ∧ scope ∈ h.registry.gap n.path) := by
  simp [exposed]

theorem mem_paths {p : Path} : p ∈ h.registry.paths ↔ ∃ n ∈ h.registry.nodes, n.path = p := by
  simp [Registry.paths]

theorem mem_paths_of_mem {n : Node} (hn : n ∈ h.registry.nodes) : n.path ∈ h.registry.paths :=
  List.mem_map_of_mem hn

theorem scope_mem_ancestors {scope : Path} {n : Node} (hn : n ∈ h.exposed scope) :
    scope ∈ n.path.ancestors := by
  rcases (mem_exposed.mp hn).2 with hs | hs
  · exact Registry.mem_ancestors_of_structuralParent? hs
  · exact Registry.mem_ancestors_of_mem_gap hs.2

theorem mem_gap_of_mem_exposed {scope a : Path} {n : Node} (hn : n ∈ h.exposed scope)
    (ha : a ∈ n.path.ancestors) (hs : scope ∈ a.ancestors) : a ∈ h.registry.gap n.path := by
  rcases (mem_exposed.mp hn).2 with hp | hp
  · rw [Registry.ancestors_eq hp] at ha
    rcases List.mem_append.mp ha with ha | ha
    · exact ha
    · have hlt := Path.depth_lt_of_mem_ancestors hs
      rcases List.mem_cons.mp ha with rfl | ha
      · exact absurd hlt (Nat.lt_irrefl _)
      · exact absurd (Path.depth_lt_of_mem_ancestors ha) (Nat.lt_asymm hlt)
  · exact Registry.mem_gap_of_between hp.2 ha hs

theorem slotPath_of_isTopLevel {scope p : Path} (hp : h.isTopLevel p = true) :
    h.slotPath scope p = p := by
  simp [slotPath, hp]

theorem slotPath_eq_iff {scope p k : Path} (hp : h.isTopLevel p = false)
    (hs : scope ∈ p.ancestors) :
    h.slotPath scope p = k ↔ k.parent? = some scope ∧ k ∈ p :: p.ancestors := by
  obtain ⟨q, hq⟩ := Path.exists_stepBelow? hs
  simp only [slotPath, hp, Bool.false_eq_true, if_false, hq, Option.getD_some]
  rw [← Path.stepBelow?_eq_some, hq, Option.some.injEq]

theorem mem_keys {scope k : Path} :
    k ∈ h.keys scope ↔ ∃ n ∈ h.exposed scope, h.slotPath scope n.path = k := by
  simp [keys]

theorem nodup_keys (scope : Path) : (h.keys scope).Nodup := by
  exact nodup_eraseDups _

theorem isUnit_iff {p : Path} :
    h.isUnit p = true ↔ p ∈ h.registry.paths ∧ h.isTopLevel p = true := by
  simp [isUnit]

theorem mem_keys_iff_of_isUnit {scope k : Path} (hk : h.isUnit k = true) :
    k ∈ h.keys scope ↔ h.registry.structuralParent? k = some scope := by
  obtain ⟨hr, ht⟩ := isUnit_iff.mp hk
  rw [mem_keys]
  constructor
  · rintro ⟨n, hn, hslot⟩
    cases hnt : h.isTopLevel n.path with
    | true =>
      rw [slotPath_of_isTopLevel hnt] at hslot
      rw [← hslot]
      rcases (mem_exposed.mp hn).2 with hp | hp
      · exact hp
      · simp [hp.1] at hnt
    | false =>
      obtain ⟨hpar, hmem⟩ := (slotPath_eq_iff hnt (scope_mem_ancestors hn)).mp hslot
      rcases List.mem_cons.mp hmem with rfl | hmem
      · simp [hnt] at ht
      · have hgap := mem_gap_of_mem_exposed hn hmem (Path.mem_ancestors_of_parent? hpar)
        exact absurd hr (Registry.not_mem_paths_of_mem_gap hgap)
  · intro hp
    obtain ⟨n, hn, rfl⟩ := mem_paths.mp hr
    exact ⟨n, mem_exposed.mpr ⟨hn, .inl hp⟩, slotPath_of_isTopLevel ht⟩

theorem structuralParent?_of_at_or_above {p q : Path} (hq : q = p ∨ q ∈ h.registry.gap p) :
    h.registry.structuralParent? q = h.registry.structuralParent? p ∧
      ∀ a ∈ h.registry.gap q, a ∈ h.registry.gap p := by
  rcases hq with rfl | hq
  · exact ⟨rfl, fun _ ha => ha⟩
  · exact ⟨Registry.structuralParent?_of_mem_gap hq, Registry.gap_of_mem_gap hq⟩

theorem mem_keys_iff_of_not_isUnit {scope k : Path} (hk : h.isUnit k = false) :
    k ∈ h.keys scope ↔ k.parent? = some scope ∧ h.IsNested k := by
  rw [mem_keys]
  constructor
  · rintro ⟨n, hn, hslot⟩
    cases hnt : h.isTopLevel n.path with
    | true =>
      rw [slotPath_of_isTopLevel hnt] at hslot
      have hr := mem_paths_of_mem (mem_exposed.mp hn).1
      rw [← hslot, isUnit_iff.mpr ⟨hr, hnt⟩] at hk
      contradiction
    | false =>
      obtain ⟨hpar, hmem⟩ := (slotPath_eq_iff hnt (scope_mem_ancestors hn)).mp hslot
      refine ⟨hpar, n, (mem_exposed.mp hn).1, hnt, ?_⟩
      rcases List.mem_cons.mp hmem with hmem | hmem
      · exact .inl hmem
      · exact .inr (mem_gap_of_mem_exposed hn hmem (Path.mem_ancestors_of_parent? hpar))
  · rintro ⟨hpar, n, hn, hnt, hmem⟩
    have hkn : k ∈ n.path :: n.path.ancestors := by
      rcases hmem with rfl | hmem
      · exact List.mem_cons_self
      · exact List.mem_cons_of_mem _ (Registry.mem_ancestors_of_mem_gap hmem)
    obtain ⟨hsp, hgap⟩ := structuralParent?_of_at_or_above hmem
    have hexp : n ∈ h.exposed scope := by
      rw [mem_exposed]
      refine ⟨hn, ?_⟩
      rw [Registry.structuralParent?_of_parent? _ hpar] at hsp
      rw [Registry.gap_of_parent? _ hpar] at hgap
      cases hr : h.registry.contains scope with
      | true =>
        rw [if_pos hr] at hsp
        exact .inl hsp.symm
      | false =>
        rw [hr] at hgap
        exact .inr ⟨hnt, hgap scope List.mem_cons_self⟩
    exact ⟨n, hexp, (slotPath_eq_iff hnt (scope_mem_ancestors hexp)).mpr ⟨hpar, hkn⟩⟩

/-! Slots. A registered path is a slot of its own; around all else lies an implicit
type that holds exactly what shows in it. -/

theorem childrenOf_eq_exposed {p : Path} (hp : p ∈ h.registry.paths) :
    h.childrenOf p = h.exposed p := by
  have hgap (n : Node) : p ∉ h.registry.gap n.path :=
    fun hg => Registry.not_mem_paths_of_mem_gap hg hp
  simp only [childrenOf, exposed, h.links_eq, Registry.links, List.filterMap_filterMap, hgap,
    decide_false, Bool.and_false, Bool.or_false]
  rw [← List.filterMap_eq_filter]
  congr 1
  funext n
  cases hs : h.registry.structuralParent? n.path with
  | none => simp [Option.guard, hs]
  | some q => by_cases hq : q = p <;> simp [Option.guard, hs, hq]

/-- The members of a scope that a slot takes in. -/
def grouped (h : Hierarchy) (scope k : Path) : List Node :=
  (h.exposed scope).filter fun n => h.slotPath scope n.path == k

theorem groups_exposed (scope : Path) :
    h.groups scope (h.exposed scope) = (h.keys scope).map fun k => (k, h.grouped scope k) := by
  simp [groups, keys, grouped, List.filter_map, Function.comp_def]

theorem eq_of_path_eq {n m : Node} (hn : n ∈ h.registry.nodes) (hm : m ∈ h.registry.nodes)
    (he : n.path = m.path) : n = m :=
  List.inj_on_of_nodup_map h.registry.nodup hn hm he

theorem get?_of_mem {n : Node} (hn : n ∈ h.registry.nodes) : h.registry.get? n.path = some n := by
  cases hg : h.registry.get? n.path with
  | none =>
    have := List.find?_eq_none.mp hg n hn
    simp at this
  | some m =>
    have hm : m.path = n.path := by simpa using List.find?_some hg
    rw [eq_of_path_eq (List.mem_of_find?_eq_some hg) hn hm]

theorem get?_of_not_mem {p : Path} (hp : p ∉ h.registry.paths) : h.registry.get? p = none := by
  rw [Registry.get?, List.find?_eq_none]
  intro n hn
  have : n.path ≠ p := fun e => hp (e ▸ mem_paths_of_mem hn)
  simpa using this

theorem nodeAt_of_mem {n : Node} (hn : n ∈ h.registry.nodes) : h.nodeAt n.path = n := by
  simp [nodeAt, get?_of_mem hn]

theorem nodeAt_of_not_mem {p : Path} (hp : p ∉ h.registry.paths) :
    h.nodeAt p = .plainBranch p := by
  simp [nodeAt, get?_of_not_mem hp]

@[simp] theorem path_nodeAt (p : Path) : (h.nodeAt p).path = p := by
  by_cases hp : p ∈ h.registry.paths
  · obtain ⟨n, hn, rfl⟩ := mem_paths.mp hp
    rw [nodeAt_of_mem hn]
  · rw [nodeAt_of_not_mem hp]
    rfl

theorem eq_of_slotPath_mem_paths {scope : Path} {n : Node} (hn : n ∈ h.exposed scope)
    (hk : h.slotPath scope n.path ∈ h.registry.paths) : h.slotPath scope n.path = n.path := by
  cases hnt : h.isTopLevel n.path with
  | true => exact slotPath_of_isTopLevel hnt
  | false =>
    obtain ⟨hpar, hmem⟩ := (slotPath_eq_iff hnt (scope_mem_ancestors hn)).mp rfl
    rcases List.mem_cons.mp hmem with hmem | hmem
    · exact hmem
    · have hgap := mem_gap_of_mem_exposed hn hmem (Path.mem_ancestors_of_parent? hpar)
      exact absurd hk (Registry.not_mem_paths_of_mem_gap hgap)

theorem grouped_of_mem {scope k : Path} (hk : k ∈ h.keys scope) (hr : k ∈ h.registry.paths) :
    h.grouped scope k = [h.nodeAt k] := by
  obtain ⟨n, hn, hslot⟩ := mem_keys.mp hk
  have hnk : n.path = k := by rw [← hslot, eq_of_slotPath_mem_paths hn (hslot ▸ hr)]
  have hnodes := (mem_exposed.mp hn).1
  rw [← hnk, nodeAt_of_mem hnodes]
  have hfilter : h.grouped scope n.path = (h.exposed scope).filter (· == n) := by
    apply List.filter_congr
    intro m hm
    have hmn := (mem_exposed.mp hm).1
    rw [Bool.eq_iff_iff, beq_iff_eq, beq_iff_eq]
    constructor
    · intro he
      rw [eq_of_slotPath_mem_paths hm (he ▸ mem_paths_of_mem hnodes)] at he
      exact eq_of_path_eq hmn hnodes he
    · rintro rfl
      rw [hslot, hnk]
  have hnodup : (h.exposed scope).Nodup :=
    (List.Nodup.of_map _ h.registry.nodup).filter _
  rw [hfilter, List.filter_beq, List.count_eq_one_of_mem hnodup hn, List.replicate_one]

theorem grouped_of_not_mem {scope k : Path} (hk : k ∈ h.keys scope) (hr : k ∉ h.registry.paths) :
    h.grouped scope k = h.exposed k := by
  have hu : h.isUnit k = false := by simp [isUnit, hr]
  obtain ⟨hpar, hnest⟩ := (mem_keys_iff_of_not_isUnit hu).mp hk
  simp only [grouped, exposed, List.filter_filter]
  apply List.filter_congr
  intro n hn
  rw [Bool.eq_iff_iff]
  have hsp : h.registry.structuralParent? n.path ≠ some k :=
    fun he => hr (Registry.mem_paths_of_structuralParent? he)
  simp only [Bool.and_eq_true, Bool.or_eq_true, beq_iff_eq, decide_eq_true_eq, Bool.not_eq_true',
    hsp, false_or]
  constructor
  · rintro ⟨hslot, hexp⟩
    have hexp : n ∈ h.exposed scope := mem_exposed.mpr ⟨hn, hexp⟩
    cases hnt : h.isTopLevel n.path with
    | true =>
      rw [slotPath_of_isTopLevel hnt] at hslot
      exact absurd (hslot ▸ mem_paths_of_mem hn) hr
    | false =>
      obtain ⟨_, hmem⟩ := (slotPath_eq_iff hnt (scope_mem_ancestors hexp)).mp hslot
      rcases List.mem_cons.mp hmem with rfl | hmem
      · exact absurd (mem_paths_of_mem hn) hr
      · exact ⟨rfl, mem_gap_of_mem_exposed hexp hmem (Path.mem_ancestors_of_parent? hpar)⟩
  · rintro ⟨hnt, hgap⟩
    obtain ⟨hsp, hsub⟩ := structuralParent?_of_at_or_above (.inr hgap)
    rw [Registry.structuralParent?_of_parent? _ hpar] at hsp
    rw [Registry.gap_of_parent? _ hpar] at hsub
    have hanc := Registry.mem_ancestors_of_mem_gap hgap
    have hslot : h.slotPath scope n.path = k :=
      (slotPath_eq_iff hnt (Path.mem_ancestors_trans (Path.mem_ancestors_of_parent? hpar) hanc)).mpr
        ⟨hpar, List.mem_cons_of_mem _ hanc⟩
    refine ⟨hslot, ?_⟩
    cases hs : h.registry.contains scope with
    | true =>
      rw [if_pos hs] at hsp
      exact .inl hsp.symm
    | false =>
      rw [hs] at hsub
      exact .inr ⟨hnt, hsub scope List.mem_cons_self⟩

theorem declared?_grouped_of_mem {scope k : Path} (hk : k ∈ h.keys scope)
    (hr : k ∈ h.registry.paths) : declared? k (h.grouped scope k) = some (h.nodeAt k) := by
  simp [grouped_of_mem hk hr, declared?]

theorem declared?_exposed {k : Path} (hr : k ∉ h.registry.paths) :
    declared? k (h.exposed k) = none := by
  unfold declared?
  split
  · next n he =>
    have hn : n ∈ h.exposed k := by simp [he]
    rw [if_neg]
    rintro rfl
    exact hr (mem_paths_of_mem (mem_exposed.mp hn).1)
  · rfl

theorem depth_le_of_mem_exposed {scope : Path} {n : Node} (hn : n ∈ h.exposed scope) :
    scope.depth < h.registry.depth :=
  Nat.lt_of_lt_of_le (Path.depth_lt_of_mem_ancestors (scope_mem_ancestors hn))
    (Registry.depth_le (mem_paths_of_mem (mem_exposed.mp hn).1))

/-- The slots of a scope are those of its keys, and the levels never run out. -/
theorem slotsAt_eq (scope : Path) : h.slotsAt scope = (h.keys scope).map h.slotAt := by
  unfold slotsAt
  cases hl : h.registry.depth - scope.depth with
  | zero =>
    have hnone : h.exposed scope = [] := by
      apply List.eq_nil_iff_forall_not_mem.mpr
      intro n hn
      have := depth_le_of_mem_exposed hn
      omega
    simp [slotsFor, keys, hnone]
  | succ levels =>
    simp only [slotsFor, groups_exposed, List.map_map]
    apply List.map_congr_left
    intro k hk
    by_cases hr : k ∈ h.registry.paths
    · simp only [Function.comp_apply, declared?_grouped_of_mem hk hr]
      cases ht : h.isTopLevel k with
      | true => simp [slotAt, isUnit, hr, ht]
      | false =>
        have hu : h.isUnit k = false := by simp [isUnit, ht]
        have hd := Path.depth_of_parent?_eq ((mem_keys_iff_of_not_isUnit hu).mp hk).1
        have hlevels : levels = h.registry.depth - k.depth := by omega
        simp [slotAt, slotsAt, hu, hr, childrenOf_eq_exposed hr, hlevels]
    · have hu : h.isUnit k = false := by simp [isUnit, hr]
      have hd := Path.depth_of_parent?_eq ((mem_keys_iff_of_not_isUnit hu).mp hk).1
      have hlevels : levels = h.registry.depth - k.depth := by omega
      simp [slotAt, slotsAt, hu, grouped_of_not_mem hk hr, declared?_exposed hr, hlevels,
        nodeAt_of_not_mem hr, Registry.contains_eq_false.mpr hr]

/-! The types of a scope. -/

def refAt (h : Hierarchy) (p : Path) : ChildRef :=
  ⟨if h.isUnit p then .unit else .nested, p.typeName, p⟩

/-- The type of a path with all that lies in it. -/
def declAt (h : Hierarchy) (p : Path) : TypeDecl where
  name := p.typeName
  node := h.nodeAt p
  children := (h.slotsAt p).map Slot.ref
  nested := Slot.declsOf (h.slotsAt p)
  implicit := !h.registry.contains p

def nestedKeys (h : Hierarchy) (p : Path) : List Path := (h.keys p).filter (!h.isUnit ·)

theorem ref_slotAt (p : Path) : (h.slotAt p).ref = h.refAt p := by
  unfold slotAt refAt
  split <;> simp [Slot.ref, Slot.path]

theorem decl?_slotAt (p : Path) :
    (h.slotAt p).decl? = if h.isUnit p then none else some (h.declAt p) := by
  unfold slotAt
  split <;> simp [Slot.decl?, declAt]

theorem declsOf_eq_filterMap (slots : List Slot) :
    Slot.declsOf slots = slots.filterMap Slot.decl? := by
  induction slots with
  | nil => rfl
  | cons s slots ih => cases hs : s.decl? <;> simp [Slot.declsOf, hs, ih]

@[simp] theorem path_declAt (p : Path) : (h.declAt p).path = p := path_nodeAt p

theorem implicit_declAt {p : Path} : (h.declAt p).implicit = true ↔ p ∉ h.registry.paths := by
  rw [← Registry.contains_eq_false]
  simp [declAt]

theorem explicit_declAt {p : Path} : (h.declAt p).implicit = false ↔ p ∈ h.registry.paths := by
  simp [declAt]

theorem declAt_children (p : Path) : (h.declAt p).children = (h.keys p).map h.refAt := by
  simp only [declAt, slotsAt_eq, List.map_map]
  exact List.map_congr_left fun k _ => ref_slotAt k

theorem declAt_nested (p : Path) : (h.declAt p).nested = (h.nestedKeys p).map h.declAt := by
  simp only [declAt, slotsAt_eq, declsOf_eq_filterMap, List.filterMap_map, nestedKeys]
  rw [← List.filterMap_eq_map, ← List.filterMap_eq_filter, List.filterMap_filterMap]
  congr 1
  funext k
  cases hu : h.isUnit k <;> simp [decl?_slotAt, hu, Option.guard]

theorem mem_nestedKeys {p k : Path} :
    k ∈ h.nestedKeys p ↔ h.isUnit k = false ∧ k.parent? = some p ∧ h.IsNested k := by
  rw [nestedKeys, List.mem_filter, Bool.not_eq_true', and_comm]
  exact and_congr_right fun hu => mem_keys_iff_of_not_isUnit hu

theorem unit_decl {n : Node} (hn : n ∈ h.registry.nodes) :
    (h.unit n).decl = h.declAt n.path := by
  have hr := mem_paths_of_mem hn
  simp [unit, declAt, slots, slotsAt, childrenOf_eq_exposed hr, nodeAt_of_mem hn, hr]

end Hierarchy

end SignalTree
