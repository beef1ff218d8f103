import SignalTree.Proofs.SamePaths

/-!
Why a registry has no units. The paths that units name are those that have a type, so nothing
else is ever looked at: two top-level nodes share a type name, or one of those paths has none
(`units_faults`).
-/
namespace SignalTree

theorem Path.typeName?_eq_ok {p : Path} {name : String} :
    p.typeName? = .ok name ↔ p.isNameable = true ∧ name = p.typeName := by
  have hnames : requireNames [p] = .ok ⟨⟩ ↔ p.isNameable = true := by simp [requireNames_eq_ok]
  rw [← hnames, typeName?]
  cases requireNames [p] with
  | error e => simp [bind, Except.bind]
  | ok x => simp [bind, Except.bind, pure, Except.pure, eq_comm]

theorem Path.isNameable_eq_false {p : Path} : p.isNameable = false ↔ p.leaf.isEmpty = true := by
  simp [isNameable]

theorem requireNames_eq_error {paths : List Path} {e : Fault} (he : requireNames paths = .error e) :
    ∃ p ∈ paths, p.isNameable = false ∧ e = .invariant (.unnameable p) := by
  unfold requireNames at he
  split at he
  · next p hp =>
    cases he
    exact ⟨p, List.mem_of_find?_eq_some hp, by simpa using List.find?_some hp, rfl⟩
  · cases he

namespace Hierarchy

variable {h : Hierarchy}

/-! The paths that units name. -/

theorem below_of_mem_trail {p q o : Path} (ho : h.owner? p = some o) (hq : q ∈ h.trail p) :
    h.Below o q := by
  have htrans : IsTrans Path fun a b => h.Below b a := ⟨fun _ _ _ hab hbc => hbc.trans hab⟩
  have hpairs : List.Pairwise (fun a b => h.Below b a) (h.trail p ++ [o]) :=
    ((isChain_trail ho).imp fun _ _ hk => .single hk).pairwise
  exact (List.pairwise_append.mp hpairs).2.2 q hq o (List.mem_singleton_self o)

theorem isPlaced_of_below {u q : Path} (hu : h.isUnit u = true) (hb : h.Below u q) :
    h.IsPlaced q := by
  obtain ⟨hnest, ho⟩ := (below_iff hu).mp hb
  exact .inr ⟨hnest, u, ho⟩

theorem isPlaced_of_mem_keys {p k : Path} (hp : h.IsPlaced p) (hk : k ∈ h.keys p) :
    h.IsPlaced k := by
  rcases mem_keys_iff.mp hk with ⟨hu, -⟩ | ⟨-, hn⟩
  · exact .inl hu
  · exact .inr ⟨(mem_nestedKeys_iff.mp hn).2, exists_owner?_of_mem_keys hp hk⟩

theorem isPlaced_of_mem_namedPaths {p q : Path} (hp : h.isUnit p = true)
    (hq : q ∈ h.namedPaths p) : h.IsPlaced q := by
  rcases List.mem_append.mp hq with hq | hq
  · rw [slots_eq_slotsAt (isUnit_iff.mp hp).1] at hq
    obtain ⟨s, rfl | hb, hk⟩ := mem_pathsOf_slotsAt.mp hq
    · exact isPlaced_of_mem_keys (.inl hp) hk
    · exact isPlaced_of_mem_keys (isPlaced_of_below hp hb) hk
  · rcases List.mem_cons.mp hq with rfl | hq
    · exact .inl hp
    · unfold parentPaths at hq
      split at hq
      · next o ho =>
        have hu := isUnit_of_owner? ho
        rcases List.mem_append.mp hq with hq | hq
        · exact isPlaced_of_below hu (below_of_mem_trail ho hq)
        · rw [List.mem_singleton.mp hq]
          exact .inl hu
      · simp at hq

theorem mem_namedPaths_of_below {u q : Path} (hu : h.isUnit u = true) (hb : h.Below u q) :
    q ∈ h.namedPaths u := by
  refine List.mem_append_left _ ?_
  rw [slots_eq_slotsAt (isUnit_iff.mp hu).1, mem_pathsOf_slotsAt]
  cases hb with
  | single hk => exact ⟨u, .inl rfl, List.mem_of_mem_filter hk⟩
  | tail hb hk => exact ⟨_, .inr hb, List.mem_of_mem_filter hk⟩

/-- The units of a registry name the paths that have a type, and no others. -/
theorem exists_mem_namedPaths_iff {q : Path} :
    (∃ p, h.isUnit p = true ∧ q ∈ h.namedPaths p) ↔ h.IsPlaced q := by
  constructor
  · rintro ⟨p, hp, hq⟩
    exact isPlaced_of_mem_namedPaths hp hq
  · rintro (hq | ⟨hnest, o, ho⟩)
    · exact ⟨q, hq, List.mem_append_right _ List.mem_cons_self⟩
    · have hu := isUnit_of_owner? ho
      exact ⟨o, hu, mem_namedPaths_of_below hu ((below_iff hu).mpr ⟨hnest, ho⟩)⟩

theorem isPlaced_iff {q : Path} : h.IsPlaced q ↔ h.isUnit q = true ∨
    ∃ n ∈ h.registry.nodes, h.isTopLevel n.path = false ∧ (∃ o, h.owner? n.path = some o) ∧
      (q = n.path ∨ q ∉ h.registry.paths ∧
        ∃ s, h.registry.structuralParent? n.path = some s ∧ s ∈ q.ancestors ∧
          q ∈ n.path.ancestors) := by
  refine or_congr_right ?_
  constructor
  · rintro ⟨⟨n, hn, ht, rfl | hgap⟩, o, ho⟩
    · exact ⟨n, hn, ht, ⟨o, ho⟩, .inl rfl⟩
    · rw [owner?_of_mem_gap hgap] at ho
      obtain ⟨s, hs⟩ := exists_structuralParent? ho
      obtain ⟨hr, habove, hbelow⟩ := (Registry.mem_gap_iff hs).mp hgap
      exact ⟨n, hn, ht, ⟨o, ho⟩, .inr ⟨hr, s, hs, habove, hbelow⟩⟩
  · rintro ⟨n, hn, ht, ⟨o, ho⟩, rfl | ⟨hr, s, hs, habove, hbelow⟩⟩
    · exact ⟨⟨n, hn, ht, .inl rfl⟩, o, ho⟩
    · have hgap := (Registry.mem_gap_iff hs).mpr ⟨hr, habove, hbelow⟩
      exact ⟨⟨n, hn, ht, .inr hgap⟩, o, by rw [owner?_of_mem_gap hgap, ho]⟩

/-! The fault of a run. -/

theorem checkedUnit_eq_error {n : Node} {e : Fault} (he : h.checkedUnit n = .error e) :
    ∃ p ∈ h.namedPaths n.path, p.isNameable = false ∧ e = .invariant (.unnameable p) := by
  refine requireNames_eq_error ?_
  unfold checkedUnit at he
  cases hr : requireNames (h.namedPaths n.path) with
  | error e' =>
    rw [hr] at he
    cases he
    rfl
  | ok x =>
    rw [hr] at he
    cases he

theorem requireFresh_eq_error {taken : List (String × Path)} {name : String} {p : Path} {e : Fault}
    (he : requireFresh taken name p = .error e) :
    ∃ other, (name, other) ∈ taken ∧ e = .invariant (.unitClash p other name) := by
  unfold requireFresh at he
  split at he
  · next other hl =>
    cases he
    obtain ⟨before, after, rfl, -⟩ := List.lookup_eq_some_iff.mp hl
    exact ⟨other, by simp, rfl⟩
  · cases he

/-- The names that a run over some nodes takes, with their paths. -/
def takenBy (h : Hierarchy) (nodes : List Node) : List (String × Path) :=
  (nodes.filter fun n => h.isTopLevel n.path).map fun n => (n.path.typeName, n.path)

/-- A run ends at a node that names a path without a name, or at one whose own name is taken by
then. -/
theorem unitsFrom_eq_error {nodes : List Node} {taken : List (String × Path)} {e : Fault}
    (he : (h.unitsFrom taken nodes).result = .error e) :
    ∃ before n after, nodes = before ++ n :: after ∧ h.isTopLevel n.path = true ∧
      ((∃ p ∈ h.namedPaths n.path, p.isNameable = false ∧ e = .invariant (.unnameable p)) ∨
        n.path.isNameable = true ∧ ∃ other,
          (n.path.typeName, other) ∈ taken ++ h.takenBy before ∧
            e = .invariant (.unitClash n.path other n.path.typeName)) := by
  induction nodes generalizing taken with
  | nil => cases he
  | cons n nodes ih =>
    cases ht : h.isTopLevel n.path with
    | false =>
      rw [unitsFrom_cons_of_not_isTopLevel ht] at he
      obtain ⟨before, m, after, rfl, hm, hfault⟩ := ih he
      refine ⟨n :: before, m, after, rfl, hm, ?_⟩
      rwa [takenBy, List.filter_cons, if_neg (by simp [ht])]
    | true =>
      rw [unitsFrom_cons_of_isTopLevel ht] at he
      cases hunit : h.checkedUnit n with
      | error e' =>
        rw [Outcome.result_bind, Outcome.result_ofExcept, hunit] at he
        cases he
        exact ⟨[], n, nodes, rfl, ht, .inl (checkedUnit_eq_error hunit)⟩
      | ok u =>
        obtain ⟨hnamed, rfl⟩ := checkedUnit_eq_ok.mp hunit
        have hself : n.path.isNameable = true :=
          hnamed _ (List.mem_append_right _ List.mem_cons_self)
        rw [Outcome.result_bind_of_ok hunit] at he
        cases hfresh : requireFresh taken (h.unit n).decl.name n.path with
        | error e' =>
          rw [Outcome.result_bind, Outcome.result_ofExcept, hfresh] at he
          cases he
          obtain ⟨other, hmem, rfl⟩ := requireFresh_eq_error hfresh
          exact ⟨[], n, nodes, rfl, ht, .inr ⟨hself, other, List.mem_append_left _ hmem, rfl⟩⟩
        | ok x =>
          rw [Outcome.result_bind_of_ok hfresh] at he
          cases hrest : (h.unitsFrom (((h.unit n).decl.name, n.path) :: taken) nodes).result with
          | ok units =>
            rw [Outcome.result_bind_of_ok hrest] at he
            cases he
          | error e' =>
            rw [Outcome.result_bind, hrest] at he
            cases he
            obtain ⟨before, m, after, rfl, hm, hfault⟩ := ih hrest
            refine ⟨n :: before, m, after, rfl, hm, hfault.imp_right ?_⟩
            rintro ⟨hm, other, hmem, rfl⟩
            refine ⟨hm, other, ?_, rfl⟩
            rw [takenBy, List.filter_cons, if_pos ht]
            exact List.perm_middle.symm.mem_iff.mp hmem

end Hierarchy

namespace Registry

open Hierarchy

/-- Two nodes of units have leaves that make one type name. -/
def SharesTypeName (r : Registry) (p q : Path) : Prop :=
  (p ∈ r.paths ∧ (ofRegistry r).isTopLevel p = true) ∧
    (q ∈ r.paths ∧ (ofRegistry r).isTopLevel q = true) ∧
      p ≠ q ∧ ∃ name, p.typeName? = .ok name ∧ q.typeName? = .ok name

/-- A node of a unit, a node with a shared leaf and a unit above it, or what lies unregistered
between such a node and its structural parent. -/
def NeedsName (r : Registry) (q : Path) : Prop :=
  (q ∈ r.paths ∧ (ofRegistry r).isTopLevel q = true) ∨
    ∃ n ∈ r.nodes, (ofRegistry r).isTopLevel n.path = false ∧
      (∃ o, (ofRegistry r).owner? n.path = some o) ∧
      (q = n.path ∨ q ∉ r.paths ∧
        ∃ s, r.structuralParent? n.path = some s ∧ s ∈ q.ancestors ∧ q ∈ n.path.ancestors)

theorem needsName_iff {r : Registry} {q : Path} :
    r.NeedsName q ↔ (ofRegistry r).IsPlaced q := by
  rw [isPlaced_iff, isUnit_iff]
  rfl

/-- Sanitizing keeps the length of a leaf, so a path without a leaf has a type name of its own. -/
theorem isNameable_of_typeName_eq {p q : Path} (hname : p.typeName = q.typeName)
    (hp : p.isNameable = true) : q.isNameable = true := by
  have hlength : p.leaf.text.toList.length = q.leaf.text.toList.length := by
    simpa [Path.typeName, typePrefix, sanitize] using congrArg (·.toList.length) hname
  rw [← Bool.not_eq_false, Path.isNameable_eq_false, Segment.isEmpty, String.isEmpty_iff,
    ← String.toList_eq_nil_iff, ← List.length_eq_zero_iff] at hp ⊢
  rwa [← hlength]

variable {r : Registry}

theorem sharesTypeName_iff {p q : Path} : r.SharesTypeName p q ↔
    (ofRegistry r).isUnit p = true ∧ (ofRegistry r).isUnit q = true ∧ p ≠ q ∧
      p.isNameable = true ∧ p.typeName = q.typeName := by
  rw [SharesTypeName, isUnit_iff, isUnit_iff]
  refine and_congr_right fun _ => and_congr_right fun _ => and_congr_right fun _ => ?_
  simp only [Path.typeName?_eq_ok]
  constructor
  · rintro ⟨_, ⟨hp, rfl⟩, -, hq⟩
    exact ⟨hp, hq⟩
  · rintro ⟨hp, hname⟩
    exact ⟨_, ⟨hp, rfl⟩, isNameable_of_typeName_eq hname hp, hname⟩

theorem not_faulty_of_units_eq_ok {units : List TypeUnit} (hu : r.units.result = .ok units) :
    (∀ p q, ¬r.SharesTypeName p q) ∧ ∀ q, r.NeedsName q → q.isNameable = true := by
  obtain ⟨hnamed, hnames⟩ := units_isOk_iff.mp ⟨units, hu⟩
  constructor
  · intro p q hshares
    obtain ⟨hp, hq, hne, -, hname⟩ := sharesTypeName_iff.mp hshares
    obtain ⟨hp, htp⟩ := isUnit_iff.mp hp
    obtain ⟨hq, htq⟩ := isUnit_iff.mp hq
    exact hne (List.inj_on_of_nodup_map hnames (List.mem_filter.mpr ⟨hp, htp⟩)
      (List.mem_filter.mpr ⟨hq, htq⟩) hname)
  · intro q hq
    obtain ⟨p, hp, hmem⟩ := exists_mem_namedPaths_iff.mpr (needsName_iff.mp hq)
    obtain ⟨hp, ht⟩ := isUnit_iff.mp hp
    exact hnamed p hp ht q hmem

theorem fault_of_units_eq_error {e : Fault} (he : r.units.result = .error e) :
    (∃ q, r.NeedsName q ∧ q.leaf.isEmpty = true ∧ e = .invariant (.unnameable q)) ∨
      ∃ p q, r.SharesTypeName p q ∧ e = .invariant (.unitClash p q p.typeName) := by
  rw [units_eq] at he
  obtain ⟨before, n, after, hnodes, ht, hfault⟩ := unitsFrom_eq_error he
  have hmem {m : Node} (hm : m ∈ before ++ [n]) : m.path ∈ r.paths := by
    refine List.mem_map_of_mem (hnodes ▸ ?_)
    simpa [or_assoc] using Or.inl (List.mem_append.mp hm)
  have hn : (ofRegistry r).isUnit n.path = true := isUnit_iff.mpr ⟨hmem (by simp), ht⟩
  rcases hfault with ⟨q, hq, hempty, rfl⟩ | ⟨hname, other, hother, rfl⟩
  · exact .inl ⟨q, needsName_iff.mpr (exists_mem_namedPaths_iff.mp ⟨n.path, hn, hq⟩),
      Path.isNameable_eq_false.mp hempty, rfl⟩
  · rw [List.nil_append, takenBy, List.mem_map] at hother
    obtain ⟨m, hm, heq⟩ := hother
    obtain ⟨hm, htm⟩ := List.mem_filter.mp hm
    obtain ⟨htype, rfl⟩ := Prod.mk.inj heq
    refine .inr ⟨n.path, m.path, sharesTypeName_iff.mpr ⟨hn, ?_, ?_, hname, htype.symm⟩, rfl⟩
    · exact isUnit_iff.mpr ⟨hmem (List.mem_append_left _ hm), htm⟩
    · have hnodup := r.nodup
      rw [hnodes, List.map_append, List.map_cons] at hnodup
      exact fun he => List.disjoint_of_nodup_append hnodup (List.mem_map_of_mem hm)
        (he ▸ List.mem_cons_self)

/-- A registry has no units exactly if two top-level nodes share a type name, or a path that
needs a name has an empty leaf. The fault says which, and nodes without a place are never looked
at. -/
theorem units_faults (r : Registry) :
    ((∃ e, r.units.result = .error e) ↔
      (∃ p q, r.SharesTypeName p q) ∨ ∃ q, r.NeedsName q ∧ q.leaf.isEmpty = true) ∧
    (∀ e, r.units.result = .error e →
      (∃ q, r.NeedsName q ∧ q.leaf.isEmpty = true ∧ e = .invariant (.unnameable q)) ∨
        ∃ p q, r.SharesTypeName p q ∧ e = .invariant (.unitClash p q p.typeName)) ∧
    ∀ n ∈ r.nodes, (ofRegistry r).isTopLevel n.path = false →
      (ofRegistry r).owner? n.path = none →
        ¬r.NeedsName n.path ∧ ∀ q, ¬r.SharesTypeName n.path q ∧ ¬r.SharesTypeName q n.path := by
  refine ⟨⟨?_, ?_⟩, fun e he => fault_of_units_eq_error he, fun n hn ht ho => ⟨?_, fun q => ?_⟩⟩
  · rintro ⟨e, he⟩
    rcases fault_of_units_eq_error he with ⟨q, hq, hempty, -⟩ | ⟨p, q, hshares, -⟩
    · exact .inr ⟨q, hq, hempty⟩
    · exact .inl ⟨p, q, hshares⟩
  · intro hfaulty
    cases hu : r.units.result with
    | error e => exact ⟨e, rfl⟩
    | ok units =>
      obtain ⟨hshares, hnamed⟩ := not_faulty_of_units_eq_ok hu
      rcases hfaulty with ⟨p, q, hpq⟩ | ⟨q, hq, hempty⟩
      · exact absurd hpq (hshares p q)
      · have := hnamed q hq
        rw [Path.isNameable_eq_false.mpr hempty] at this
        cases this
  · rintro (⟨-, htop⟩ | ⟨m, -, -, ⟨o, howner⟩, heq | ⟨hr, -⟩⟩)
    · simp [ht] at htop
    · simp [← heq, ho] at howner
    · exact hr (List.mem_map_of_mem hn)
  · exact ⟨fun h => by simp [h.1.2] at ht, fun h => by simp [h.2.1.2] at ht⟩

def namelessSample : Registry :=
  .ofNodes (["Vehicle", "Vehicle.Cabin.", "Trailer."].map fun p => .plainBranch (.ofText p))

theorem units_faults_namelessSample :
    (∃ e, namelessSample.units.result = .error e) ∧
      namelessSample.NeedsName (.ofText "Vehicle.Cabin.") ∧
      ¬namelessSample.NeedsName (.ofText "Trailer.") := by
  obtain ⟨hiff, -, hplaceless⟩ := units_faults namelessSample
  have hneeds : namelessSample.NeedsName (.ofText "Vehicle.Cabin.") :=
    .inr ⟨.plainBranch (.ofText "Vehicle.Cabin."), by decide +kernel, by decide +kernel,
      ⟨.ofText "Vehicle", by decide +kernel⟩, .inl rfl⟩
  refine ⟨hiff.mpr (.inr ⟨_, hneeds, by decide +kernel⟩), hneeds, ?_⟩
  exact (hplaceless (.plainBranch (.ofText "Trailer.")) (by decide +kernel) (by decide +kernel)
    (by decide +kernel)).1

end Registry

end SignalTree
