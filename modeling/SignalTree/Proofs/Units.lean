import Mathlib.Data.List.Nodup
import SignalTree.Model.Units
import SignalTree.Proofs.Scope

/-!
The units of a registry, when there are any: one for every node with a leaf of
its own, with distinct names, and a report of every node that has no place.
-/
namespace SignalTree

namespace Outcome

theorem bind_eq_ok {x : Outcome α} {f : α → Outcome β} {b : β}
    (hb : (x >>= f).result = .ok b) :
    ∃ a, x.result = .ok a ∧ (f a).result = .ok b ∧ (x >>= f).log = x.log ++ (f a).log := by
  cases hx : x.result with
  | error e =>
    rw [result_bind, hx] at hb
    cases hb
  | ok a =>
    rw [result_bind, hx] at hb
    exact ⟨a, rfl, hb, by rw [log_bind, hx]⟩

end Outcome

theorem requireNames_eq_ok {paths : List Path} :
    requireNames paths = .ok ⟨⟩ ↔ ∀ p ∈ paths, p.isNameable = true := by
  unfold requireNames
  cases hf : paths.find? (!·.isNameable) with
  | none => simpa using List.find?_eq_none.mp hf
  | some p =>
    have hp : p.isNameable = false := by simpa using List.find?_some hf
    simp only [reduceCtorEq, false_iff, not_forall]
    exact ⟨p, List.mem_of_find?_eq_some hf, by simp [hp]⟩

namespace Hierarchy

variable {h : Hierarchy}

/-- Nodes that have no place: they share their leaf, and no unit lies above them. -/
def isOrphan (h : Hierarchy) (n : Node) : Bool :=
  !h.isTopLevel n.path && (h.owner? n.path).isNone

theorem checkedUnit_eq_ok {n : Node} {u : TypeUnit} :
    h.checkedUnit n = .ok u ↔ (∀ p ∈ h.namedPaths n.path, p.isNameable = true) ∧ u = h.unit n := by
  rw [← requireNames_eq_ok]
  unfold checkedUnit
  cases requireNames (h.namedPaths n.path) with
  | error e => simp [bind, Except.bind]
  | ok x => simp [bind, Except.bind, pure, Except.pure, eq_comm]

theorem requireFresh_eq_ok {taken : List (String × Path)} {name : String} {p : Path} {x : PUnit} :
    requireFresh taken name p = .ok x ↔ name ∉ taken.map Prod.fst := by
  unfold requireFresh
  cases hl : taken.lookup name with
  | none =>
    have := List.lookup_eq_none_iff.mp hl
    simp only [true_iff, List.mem_map, not_exists, not_and]
    rintro ⟨name', q⟩ hmem rfl
    simpa using this _ hmem
  | some q =>
    obtain ⟨l, r, hsplit, _⟩ := List.lookup_eq_some_iff.mp hl
    simp [hsplit]

theorem unitsFrom_cons_of_isTopLevel {n : Node} (ht : h.isTopLevel n.path = true)
    (taken : List (String × Path)) (nodes : List Node) :
    h.unitsFrom taken (n :: nodes) =
      (Outcome.ofExcept (h.checkedUnit n) >>= fun u =>
        Outcome.ofExcept (requireFresh taken u.decl.name n.path) >>= fun _ =>
          h.unitsFrom ((u.decl.name, n.path) :: taken) nodes >>= fun rest => pure (u :: rest)) := by
  rw [unitsFrom, if_pos ht]
  rfl

theorem unitsFrom_cons_of_not_isTopLevel {n : Node} (ht : h.isTopLevel n.path = false)
    (taken : List (String × Path)) (nodes : List Node) :
    h.unitsFrom taken (n :: nodes) =
      ⟨(if h.isOrphan n then [.orphanSkipped n.path] else []) ++ (h.unitsFrom taken nodes).log,
        (h.unitsFrom taken nodes).result⟩ := by
  rw [unitsFrom, if_neg (by simp [ht])]
  cases ho : (h.owner? n.path).isNone with
  | true => simp only [isOrphan, ht, ho]; rfl
  | false => simp only [isOrphan, ht, ho]; rfl

theorem unitsFrom_eq_ok {nodes : List Node} {taken : List (String × Path)} {units : List TypeUnit}
    (hu : (h.unitsFrom taken nodes).result = .ok units) :
    units = (nodes.filter fun n => h.isTopLevel n.path).map h.unit ∧
      (∀ u ∈ units, u.decl.name ∉ taken.map Prod.fst) ∧ (units.map (·.decl.name)).Nodup ∧
      (h.unitsFrom taken nodes).log =
        (nodes.filter h.isOrphan).map fun n => .orphanSkipped n.path := by
  induction nodes generalizing taken units with
  | nil =>
    cases hu
    exact ⟨rfl, by simp, by simp, rfl⟩
  | cons n nodes ih =>
    cases ht : h.isTopLevel n.path with
    | true =>
      rw [unitsFrom_cons_of_isTopLevel ht] at hu ⊢
      obtain ⟨u, hunit, hu, hlog⟩ := Outcome.bind_eq_ok hu
      rw [hlog]
      obtain ⟨x, hfresh, hu, hlog⟩ := Outcome.bind_eq_ok hu
      rw [hlog]
      obtain ⟨rest, hrest, hu, hlog⟩ := Outcome.bind_eq_ok hu
      rw [hlog]
      cases hu
      obtain ⟨-, rfl⟩ := checkedUnit_eq_ok.mp hunit
      have hfresh := requireFresh_eq_ok.mp hfresh
      obtain ⟨hunits, hnot, hnodup, hlog⟩ := ih hrest
      refine ⟨by simp [ht, hunits], ?_, ?_, by simp [isOrphan, ht, hlog]⟩
      · intro v hv
        rcases List.mem_cons.mp hv with rfl | hv
        · exact hfresh
        · exact fun hmem => hnot v hv (List.mem_cons_of_mem _ hmem)
      · rw [List.map_cons, List.nodup_cons]
        refine ⟨?_, hnodup⟩
        intro hmem
        obtain ⟨v, hv, hname⟩ := List.mem_map.mp hmem
        exact hnot v hv (by simp [hname])
    | false =>
      rw [unitsFrom_cons_of_not_isTopLevel ht] at hu ⊢
      obtain ⟨hunits, hnot, hnodup, hlog⟩ := ih hu
      refine ⟨by simp [ht, hunits], hnot, hnodup, ?_⟩
      rw [hlog, List.filter_cons]
      split <;> rfl

theorem length_le_one_iff {α : Type} {l : List α} {x : α} (hl : l.Nodup) (hx : x ∈ l) :
    l.length ≤ 1 ↔ ∀ y ∈ l, y = x := by
  match l with
  | [] => simp at hx
  | [a] =>
    rw [List.mem_singleton] at hx
    simp [hx]
  | a :: b :: rest =>
    constructor
    · intro hlen
      simp at hlen
    · intro hall
      rw [hall a (by simp), hall b (by simp)] at hl
      simp at hl

theorem mem_sharedLeaves {r : Registry} {s : Segment} :
    s ∈ r.sharedLeaves ↔ 1 < (r.paths.map Path.leaf).count s := by
  simp only [Registry.sharedLeaves, List.mem_mergeSort, List.mem_eraseDups, List.mem_filter,
    decide_eq_true_eq, and_iff_right_iff_imp]
  intro hc
  exact List.count_pos_iff.mp (Nat.lt_trans Nat.zero_lt_one hc)

theorem isTopLevel_ofRegistry {r : Registry} {n : Node} (hn : n ∈ r.nodes) :
    (ofRegistry r).isTopLevel n.path = true ↔
      ∀ m ∈ r.nodes, m.path.leaf = n.path.leaf → m = n := by
  let same := r.nodes.filter fun m => m.path.leaf == n.path.leaf
  have hcount : (r.paths.map Path.leaf).count n.path.leaf = same.length := by
    rw [Registry.paths, List.map_map, List.count_eq_countP, List.countP_map,
      List.countP_eq_length_filter]
    rfl
  have hsame {m : Node} : m ∈ same ↔ m ∈ r.nodes ∧ m.path.leaf = n.path.leaf := by simp [same]
  have hnodup : same.Nodup := (List.Nodup.of_map _ r.nodup).filter _
  have htop : (ofRegistry r).isTopLevel n.path = true ↔ same.length ≤ 1 := by
    rw [← hcount, ← Nat.not_lt, ← mem_sharedLeaves]
    simp [isTopLevel, ofRegistry, of]
  rw [htop, length_le_one_iff hnodup (hsame.mpr ⟨hn, rfl⟩)]
  simp only [hsame, and_imp]

end Hierarchy

namespace Registry

variable {r : Registry} {units : List TypeUnit}

theorem units_eq (r : Registry) :
    r.units = ⟨(if r.sharedLeaves.isEmpty then [] else [.leavesShared r.sharedLeaves]) ++
      ((Hierarchy.ofRegistry r).unitsFrom [] r.nodes).log,
      ((Hierarchy.ofRegistry r).unitsFrom [] r.nodes).result⟩ := by
  unfold Registry.units
  cases hs : r.sharedLeaves.isEmpty with
  | true => simp only [Hierarchy.ofRegistry, Hierarchy.of, hs]; rfl
  | false => simp only [Hierarchy.ofRegistry, Hierarchy.of, hs]; rfl

theorem units_eq_ok (hu : r.units.result = .ok units) :
    units = (r.nodes.filter fun n => (Hierarchy.ofRegistry r).isTopLevel n.path).map
        (Hierarchy.ofRegistry r).unit ∧
      (units.map (·.decl.name)).Nodup ∧
      r.units.log = (if r.sharedLeaves.isEmpty then [] else [.leavesShared r.sharedLeaves]) ++
        (r.nodes.filter (Hierarchy.ofRegistry r).isOrphan).map fun n => .orphanSkipped n.path := by
  rw [units_eq] at hu
  obtain ⟨hunits, -, hnodup, hlog⟩ := Hierarchy.unitsFrom_eq_ok hu
  exact ⟨hunits, hnodup, by rw [units_eq, hlog]⟩

end Registry

end SignalTree
