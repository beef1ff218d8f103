import SignalTree.Proofs.Forest
import SignalTree.Proofs.UnitNames

/-!
The paths that a unit names, and when the units of a registry exist: if all those paths
have names, and no two units the same one (`exists_unitsFrom_eq_ok`).
-/
namespace SignalTree

theorem Outcome.result_bind_of_ok {x : Outcome α} {a : α} (h : x.result = .ok a)
    (f : α → Outcome β) : (x >>= f).result = (f a).result := by
  rw [result_bind, h]
  rfl

namespace Hierarchy

variable {h : Hierarchy}

theorem paths_slotAt (k : Path) :
    (h.slotAt k).paths = if h.isUnit k then [k] else k :: Slot.pathsOf (h.slotsAt k) := by
  unfold slotAt
  split <;> simp [Slot.paths]

theorem mem_pathsOf_slotsAt_iff {p q : Path} : q ∈ Slot.pathsOf (h.slotsAt p) ↔
    ∃ k ∈ h.keys p, q = k ∨ h.isUnit k = false ∧ q ∈ Slot.pathsOf (h.slotsAt k) := by
  rw [Slot.pathsOf_eq_flatMap, slotsAt_eq, List.flatMap_map, List.mem_flatMap]
  refine exists_congr fun k => and_congr_right fun _ => ?_
  rw [paths_slotAt]
  cases h.isUnit k <;> simp

theorem depth_lt_of_mem_keys {p k : Path} (hk : k ∈ h.keys p) : p.depth < h.registry.depth := by
  obtain ⟨n, hn, -⟩ := mem_keys.mp hk
  exact depth_le_of_mem_exposed hn

theorem mem_pathsOf_slotsAt {p q : Path} : q ∈ Slot.pathsOf (h.slotsAt p) ↔
    ∃ s, (s = p ∨ h.Below p s) ∧ q ∈ h.keys s := by
  constructor
  · -- Every nested key lies one level deeper, and none lies deeper than the registry.
    induction hl : h.registry.depth - p.depth using Nat.strong_induction_on generalizing p with
    | _ levels ih =>
      intro hq
      obtain ⟨k, hk, rfl | ⟨hu, hq⟩⟩ := mem_pathsOf_slotsAt_iff.mp hq
      · exact ⟨p, .inl rfl, hk⟩
      · have hnested : k ∈ h.nestedKeys p := List.mem_filter.mpr ⟨hk, by simp [hu]⟩
        have hdepth := Path.depth_of_parent?_eq (mem_nestedKeys_iff.mp hnested).1
        have hbound := depth_lt_of_mem_keys hk
        obtain ⟨s, hs, hq⟩ := ih (h.registry.depth - k.depth) (by omega) rfl hq
        refine ⟨s, .inr ?_, hq⟩
        rcases hs with rfl | hs
        · exact .single hnested
        · exact .head hnested hs
  · rintro ⟨s, rfl | hs, hq⟩
    · exact mem_pathsOf_slotsAt_iff.mpr ⟨q, hq, .inl rfl⟩
    · induction hs using Relation.TransGen.head_induction_on with
      | single hk =>
        obtain ⟨hkey, hu⟩ := List.mem_filter.mp hk
        refine mem_pathsOf_slotsAt_iff.mpr ⟨_, hkey, .inr ⟨by simpa using hu, ?_⟩⟩
        exact mem_pathsOf_slotsAt_iff.mpr ⟨q, hq, .inl rfl⟩
      | head hk _ ih =>
        obtain ⟨hkey, hu⟩ := List.mem_filter.mp hk
        exact mem_pathsOf_slotsAt_iff.mpr ⟨_, hkey, .inr ⟨by simpa using hu, ih⟩⟩

theorem slots_eq_slotsAt {p : Path} (hp : p ∈ h.registry.paths) : h.slots p = h.slotsAt p := by
  rw [slots, slotsAt, childrenOf_eq_exposed hp]

theorem mem_ancestors_of_mem_parentPaths {p q : Path} (hq : q ∈ h.parentPaths p) :
    q ∈ p.ancestors := by
  unfold parentPaths at hq
  split at hq
  · next o ho =>
    rcases List.mem_append.mp hq with hq | hq
    · exact (List.dropWhile_suffix _).mem ((List.takeWhile_prefix _).mem hq)
    · rw [List.mem_singleton.mp hq]
      exact List.mem_of_find?_eq_some ho
  · simp at hq

/-- Nothing stops a run over some nodes if the paths that their units name have names, and no
two units the same. -/
theorem exists_unitsFrom_eq_ok {nodes : List Node} {taken : List (String × Path)}
    (hnamed : ∀ n ∈ nodes, h.isTopLevel n.path = true →
      ∀ p ∈ h.namedPaths n.path, p.isNameable = true)
    (hnames : ((nodes.filter fun n => h.isTopLevel n.path).map fun n => n.path.typeName).Nodup)
    (hfresh : ∀ n ∈ nodes, h.isTopLevel n.path = true → n.path.typeName ∉ taken.map Prod.fst) :
    ∃ units, (h.unitsFrom taken nodes).result = .ok units := by
  induction nodes generalizing taken with
  | nil => exact ⟨[], rfl⟩
  | cons n nodes ih =>
    obtain ⟨hn, hnodes⟩ := List.forall_mem_cons.mp hnamed
    obtain ⟨hself, hrest⟩ := List.forall_mem_cons.mp hfresh
    cases ht : h.isTopLevel n.path with
    | true =>
      rw [List.filter_cons, if_pos ht, List.map_cons, List.nodup_cons] at hnames
      have hunit : h.checkedUnit n = .ok (h.unit n) := checkedUnit_eq_ok.mpr ⟨hn ht, rfl⟩
      have hname : requireFresh taken (h.unit n).decl.name n.path = .ok ⟨⟩ :=
        requireFresh_eq_ok.mpr (hself ht)
      have hlater : ∀ m ∈ nodes, h.isTopLevel m.path = true →
          m.path.typeName ∉ (((h.unit n).decl.name, n.path) :: taken).map Prod.fst := by
        intro m hm htop hmem
        rcases List.mem_cons.mp hmem with heq | hmem
        · exact hnames.1 (List.mem_map.mpr ⟨m, List.mem_filter.mpr ⟨hm, htop⟩, heq⟩)
        · exact hrest m hm htop hmem
      obtain ⟨units, hunits⟩ := ih hnodes hnames.2 hlater
      refine ⟨h.unit n :: units, ?_⟩
      rw [unitsFrom_cons_of_isTopLevel ht, Outcome.result_bind_of_ok hunit,
        Outcome.result_bind_of_ok hname, Outcome.result_bind_of_ok hunits]
      rfl
    | false =>
      rw [List.filter_cons, if_neg (by simp [ht])] at hnames
      rw [unitsFrom_cons_of_not_isTopLevel ht]
      exact ih hnodes hnames hrest

end Hierarchy

end SignalTree
