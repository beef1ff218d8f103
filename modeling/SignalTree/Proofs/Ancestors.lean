import Mathlib.Data.List.Chain
import SignalTree.Registry

/-!
The order of paths by prefix, and the stretch of unregistered paths between a
path and the nearest registered one above it.
-/
namespace SignalTree

namespace Path

@[simp] theorem ancestors_root (s : Segment) : (root s).ancestors = [] := rfl

@[simp] theorem ancestors_child (p : Path) (s : Segment) :
    (child p s).ancestors = p :: p.ancestors := rfl

@[simp] theorem parent?_child (p : Path) (s : Segment) : (child p s).parent? = some p := rfl

theorem parent?_eq_some {p q : Path} : p.parent? = some q ↔ ∃ s, p = child q s := by
  cases p <;> simp [parent?, eq_comm]

theorem ancestors_of_parent? {p q : Path} (h : p.parent? = some q) :
    p.ancestors = q :: q.ancestors := by
  obtain ⟨s, rfl⟩ := parent?_eq_some.mp h
  rfl

theorem mem_ancestors_of_parent? {p q : Path} (h : p.parent? = some q) : q ∈ p.ancestors := by
  rw [ancestors_of_parent? h]
  exact List.mem_cons_self

theorem suffix_ancestors {p q : Path} (h : q ∈ p.ancestors) : q :: q.ancestors <:+ p.ancestors := by
  induction p with
  | root s => simp at h
  | child p s ih =>
    rcases List.mem_cons.mp h with rfl | h
    · exact List.suffix_refl _
    · exact (ih h).trans (List.suffix_cons _ _)

theorem mem_ancestors_trans {p q a : Path} (ha : a ∈ q.ancestors) (hq : q ∈ p.ancestors) :
    a ∈ p.ancestors :=
  (suffix_ancestors hq).mem (List.mem_cons_of_mem _ ha)

theorem not_mem_ancestors_self (p : Path) : p ∉ p.ancestors := by
  intro h
  exact Nat.lt_irrefl _ (depth_lt_of_mem_ancestors h)

theorem eq_of_depth_eq {p a b : Path} (ha : a ∈ p :: p.ancestors) (hb : b ∈ p :: p.ancestors)
    (h : a.depth = b.depth) : a = b := by
  rw [eq_up_of_mem ha, eq_up_of_mem hb, h]

theorem exists_stepBelow? {scope p : Path} (h : scope ∈ p.ancestors) :
    ∃ q, stepBelow? scope p = some q := by
  induction p with
  | root s => simp at h
  | child p s ih =>
    rcases List.mem_cons.mp h with rfl | h
    · exact ⟨child scope s, stepBelow?_eq_some.mpr ⟨rfl, List.mem_cons_self⟩⟩
    · obtain ⟨q, hq⟩ := ih h
      have hq := stepBelow?_eq_some.mp hq
      exact ⟨q, stepBelow?_eq_some.mpr ⟨hq.1, List.mem_cons_of_mem _ hq.2⟩⟩

end Path

namespace Registry

variable (r : Registry)

/-- The paths above a path up to, and without, the nearest registered one. -/
def gap (p : Path) : List Path := p.ancestors.takeWhile (!r.contains ·)

theorem gap_of_parent? {p q : Path} (h : p.parent? = some q) :
    r.gap p = if r.contains q then [] else q :: r.gap q := by
  simp only [gap, Path.ancestors_of_parent? h, List.takeWhile_cons]
  cases r.contains q <;> rfl

theorem structuralParent?_of_parent? {p q : Path} (h : p.parent? = some q) :
    r.structuralParent? p = if r.contains q then some q else r.structuralParent? q := by
  simp only [structuralParent?, Path.ancestors_of_parent? h, List.find?_cons]
  cases r.contains q <;> rfl

variable {r}

theorem contains_eq_false {p : Path} : r.contains p = false ↔ p ∉ r.paths := by
  rw [← contains_iff, Bool.not_eq_true]

theorem mem_ancestors_of_mem_gap {p q : Path} (h : q ∈ r.gap p) : q ∈ p.ancestors :=
  (List.takeWhile_prefix _).mem h

theorem not_mem_paths_of_mem_gap {p q : Path} (h : q ∈ r.gap p) : q ∉ r.paths := by
  have := List.all_takeWhile (l := p.ancestors) (p := (!r.contains ·))
  have := List.all_eq_true.mp this q h
  exact contains_eq_false.mp (by simpa using this)

theorem mem_paths_of_structuralParent? {p q : Path} (h : r.structuralParent? p = some q) :
    q ∈ r.paths :=
  contains_iff.mp (List.find?_some h)

theorem mem_ancestors_of_structuralParent? {p q : Path} (h : r.structuralParent? p = some q) :
    q ∈ p.ancestors :=
  List.mem_of_find?_eq_some h

theorem mem_gap_of_between {p q a : Path} (h : q ∈ r.gap p) (ha : a ∈ p.ancestors)
    (hq : q ∈ a.ancestors) : a ∈ r.gap p := by
  induction p with
  | root s => simp at ha
  | child p s ih =>
    rw [gap_of_parent? r (Path.parent?_child p s)] at h ⊢
    split at h
    · simp at h
    · next hr =>
      rw [if_neg hr]
      rcases List.mem_cons.mp ha with rfl | ha
      · exact List.mem_cons_self
      · rcases List.mem_cons.mp h with rfl | h
        · exact absurd (Path.mem_ancestors_trans hq ha) (Path.not_mem_ancestors_self _)
        · exact List.mem_cons_of_mem _ (ih h ha)

theorem structuralParent?_of_mem_gap {p q : Path} (h : q ∈ r.gap p) :
    r.structuralParent? q = r.structuralParent? p := by
  induction p with
  | root s => simp [gap] at h
  | child p s ih =>
    rw [gap_of_parent? r (Path.parent?_child p s)] at h
    split at h
    · simp at h
    · next hr =>
      rw [structuralParent?_of_parent? r (Path.parent?_child p s), if_neg hr]
      rcases List.mem_cons.mp h with rfl | h
      · rfl
      · exact ih h

theorem gap_of_mem_gap {p q : Path} (h : q ∈ r.gap p) : ∀ a ∈ r.gap q, a ∈ r.gap p := by
  induction p with
  | root s => simp [gap] at h
  | child p s ih =>
    intro a ha
    rw [gap_of_parent? r (Path.parent?_child p s)] at h ⊢
    split at h
    · simp at h
    · next hr =>
      rw [if_neg hr]
      rcases List.mem_cons.mp h with rfl | h
      · exact List.mem_cons_of_mem _ ha
      · exact List.mem_cons_of_mem _ (ih h a ha)

theorem ancestors_eq {p q : Path} (h : r.structuralParent? p = some q) :
    p.ancestors = r.gap p ++ q :: q.ancestors := by
  induction p with
  | root s => simp [structuralParent?] at h
  | child p s ih =>
    rw [structuralParent?_of_parent? r (Path.parent?_child p s)] at h
    rw [gap_of_parent? r (Path.parent?_child p s)]
    split at h
    · next hr => simp_all
    · next hr => simp [hr, ih h]

theorem depth_le {p : Path} (h : p ∈ r.paths) : p.depth ≤ r.depth := by
  have key (ds : List Nat) (start : Nat) : start ≤ ds.foldl max start ∧
      ∀ d ∈ ds, d ≤ ds.foldl max start := by
    induction ds generalizing start with
    | nil => simp
    | cons d ds ih =>
      have := ih (max start d)
      simp only [List.foldl_cons, List.mem_cons, forall_eq_or_imp]
      grind
  exact (key _ 0).2 _ (List.mem_map_of_mem h)

end Registry

end SignalTree
