import SignalTree.Proofs.Forest
import SignalTree.Proofs.Members

/-!
The order of children. A child takes the place of the first node that goes to its slot, and the
slots of a scope come in that order (`pairwise_position?_keys`). What is declared in the scope and
what is written of the children keeps to it (`childOrder`).
-/
namespace SignalTree

theorem findIdx_congr {l : List α} {p q : α → Bool} (h : ∀ a ∈ l, p a = q a) :
    l.findIdx p = l.findIdx q := by
  induction l with
  | nil => rfl
  | cons a l ih =>
    rw [List.findIdx_cons, List.findIdx_cons, h a List.mem_cons_self,
      ih fun b hb => h b (List.mem_cons_of_mem a hb)]

theorem pairwise_findIdx_eraseDups [BEq β] [LawfulBEq β] (l : List α) (f : α → β)
    (pass : α → Bool) : ((l.filter pass).map f).eraseDups.Pairwise fun x y =>
      l.findIdx (fun a => pass a && f a == x) < l.findIdx (fun a => pass a && f a == y) := by
  induction l generalizing pass with
  | nil => simp
  | cons a l ih =>
    cases ha : pass a with
    | false =>
      rw [List.filter_cons_of_neg (by simp [ha])]
      refine (ih pass).imp fun {x y} hlt => ?_
      simpa [List.findIdx_cons, ha] using hlt
    | true =>
      have hrest : ((l.filter pass).map f).filter (fun b => !b == f a) =
          (l.filter fun b => !f b == f a && pass b).map f := by
        rw [List.filter_map, List.filter_filter]
        rfl
      rw [List.filter_cons_of_pos ha, List.map_cons, List.eraseDups_cons, hrest,
        List.pairwise_cons]
      have hother {x : β} (hx : x ∈ ((l.filter fun b => !f b == f a && pass b).map f).eraseDups) :
          (a :: l).findIdx (fun b => pass b && f b == x) =
            l.findIdx (fun b => !f b == f a && pass b && f b == x) + 1 := by
        have hne : f a ≠ x := by
          obtain ⟨b, hb, rfl⟩ := List.mem_map.mp (List.mem_eraseDups.mp hx)
          rintro he
          simp [he] at hb
        rw [List.findIdx_cons, ha, Bool.true_and, beq_false_of_ne hne, cond_false]
        refine congrArg (· + 1) (findIdx_congr fun b _ => ?_)
        by_cases hb : f b = x
        · simp [hb, beq_false_of_ne hne.symm]
        · simp [beq_false_of_ne hb]
      refine ⟨fun x hx => ?_, (ih _).imp_of_mem fun {x y} hx hy hlt => ?_⟩
      · rw [hother hx, List.findIdx_cons, ha, beq_self_eq_true]
        exact Nat.succ_pos _
      · rw [hother hx, hother hy]
        exact Nat.succ_lt_succ hlt

namespace Registry

/-- Whether a node gives a path its place among children: the node of the path or, if there is
none, one below it that shares its leaf and has its structural parent above the path. -/
def places (r : Registry) (p : Path) (n : Node) : Bool :=
  if r.contains p then n.path == p
  else
    r.sharedLeaves.contains n.path.leaf && n.path.ancestors.contains p &&
      (r.structuralParent? n.path).any fun s => p.ancestors.contains s

/-- The position in the registry of the first node that gives a path its place. -/
def position? (r : Registry) (p : Path) : Option Nat := r.nodes.findIdx? (r.places p)

theorem places_of_mem {r : Registry} {p : Path} (hp : p ∈ r.paths) (n : Node) :
    r.places p n = true ↔ n.path = p := by
  rw [places, if_pos (contains_iff.mpr hp), beq_iff_eq]

theorem places_of_not_mem {r : Registry} {p : Path} (hp : p ∉ r.paths) (n : Node) :
    r.places p n = true ↔ n.path.leaf ∈ r.sharedLeaves ∧ p ∈ n.path.ancestors ∧
      ∃ s, r.structuralParent? n.path = some s ∧ s ∈ p.ancestors := by
  rw [places, if_neg (by simpa using hp)]
  simp [and_assoc, Option.any_eq_true]

end Registry

namespace Hierarchy

variable {r : Registry}

theorem places_iff {scope k : Path} (hscope : (ofRegistry r).IsPlaced scope)
    (hk : k ∈ (ofRegistry r).keys scope) {n : Node} (hn : n ∈ r.nodes) :
    r.places k n = true ↔ n ∈ (ofRegistry r).grouped scope k := by
  by_cases hr : k ∈ r.paths
  · rw [Registry.places_of_mem hr, grouped_of_mem hk hr, List.mem_singleton]
    constructor
    · rintro rfl
      exact (nodeAt_of_mem hn).symm
    · rintro rfl
      exact path_nodeAt k
  · obtain ⟨o, ho⟩ := exists_owner?_of_mem_keys hscope hk
    obtain ⟨s, hs⟩ := exists_structuralParent? ho
    have hshared : (ofRegistry r).isTopLevel n.path = false ↔ n.path.leaf ∈ r.sharedLeaves := by
      simp [isTopLevel, ofRegistry, of]
    rw [Registry.places_of_not_mem hr, grouped_of_not_mem hk hr, mem_exposed, hshared]
    constructor
    · rintro ⟨hleaf, hbelow, s', hs', habove⟩
      exact ⟨hn, .inr ⟨hleaf, (Registry.mem_gap_iff hs').mpr ⟨hr, habove, hbelow⟩⟩⟩
    · rintro ⟨-, hparent | ⟨hleaf, hgap⟩⟩
      · exact absurd (Registry.mem_paths_of_structuralParent? hparent) hr
      · rw [Registry.structuralParent?_of_mem_gap hgap] at hs
        obtain ⟨-, habove, hbelow⟩ := (Registry.mem_gap_iff hs).mp hgap
        exact ⟨hleaf, hbelow, s, hs, habove⟩

theorem filter_mem_exposed (scope : Path) :
    r.nodes.filter (· ∈ (ofRegistry r).exposed scope) = (ofRegistry r).exposed scope := by
  refine List.filter_congr fun n hn => ?_
  have hnode : n ∈ (ofRegistry r).registry.nodes := hn
  simp [mem_exposed, hnode]

theorem position?_of_mem_keys {scope k : Path} (hscope : (ofRegistry r).IsPlaced scope)
    (hk : k ∈ (ofRegistry r).keys scope) :
    r.position? k = some (r.nodes.findIdx (r.places k)) := by
  obtain ⟨n, hn, hslot⟩ := mem_keys.mp hk
  have hmem : n ∈ (ofRegistry r).grouped scope k := List.mem_filter.mpr ⟨hn, by simp [hslot]⟩
  have hnode : n ∈ r.nodes := (mem_exposed.mp hn).1
  exact List.findIdx?_eq_some_of_exists ⟨n, hnode, (places_iff hscope hk hnode).mpr hmem⟩

theorem pairwise_position?_keys {scope : Path} (hscope : (ofRegistry r).IsPlaced scope) :
    ∃ positions : List Nat, ((ofRegistry r).keys scope).map r.position? = positions.map some ∧
      positions.Pairwise (· < ·) := by
  have horder := pairwise_findIdx_eraseDups r.nodes ((ofRegistry r).slotPath scope ·.path)
    (· ∈ (ofRegistry r).exposed scope)
  have hfirst {k : Path} (hk : k ∈ (ofRegistry r).keys scope) :
      r.nodes.findIdx (fun n => decide (n ∈ (ofRegistry r).exposed scope) &&
        (ofRegistry r).slotPath scope n.path == k) = r.nodes.findIdx (r.places k) := by
    refine findIdx_congr fun n hn => ?_
    rw [Bool.eq_iff_iff, places_iff hscope hk hn, grouped, List.mem_filter, Bool.and_eq_true,
      decide_eq_true_iff]
  refine ⟨((ofRegistry r).keys scope).map fun k => r.nodes.findIdx (r.places k), ?_, ?_⟩
  · rw [List.map_map]
    exact List.map_congr_left fun k hk => position?_of_mem_keys hscope hk
  · rw [filter_mem_exposed] at horder
    rw [List.pairwise_map]
    refine List.Pairwise.imp_of_mem (fun {k k'} hk hk' hlt => ?_) horder
    rwa [hfirst hk, hfirst hk'] at hlt

end Hierarchy

namespace Registry

variable {r : Registry} {units : List TypeUnit}

/-- How the children of the types of units are ordered, and what follows their order. -/
structure ChildOrder (r : Registry) (units : List TypeUnit) : Prop where
  positions : ∀ t ∈ units.flatMap TypeUnit.types, ∃ positions : List Nat,
    (t.children.map fun c => r.position? c.path) = positions.map some ∧ positions.Pairwise (· < ·)
  implicit : ∀ t ∈ units.flatMap TypeUnit.types, ∀ c ∈ t.children,
    c.path ∉ r.paths ↔ ∃ d ∈ t.nested, d.path = c.path ∧ d.implicit = true
  nested : ∀ t ∈ units.flatMap TypeUnit.types, (t.nested.map fun d => (d.name, d.path)) =
    (t.children.filter (·.kind = .nested)).map fun c => (c.name, c.path)
  written : ∀ t ∈ units.flatMap TypeUnit.types, ∃ loc isUnit parent,
    Source.StandsAt units loc isUnit parent t
  members : ∀ {loc isUnit parent t}, Source.StandsAt units loc isUnit parent t →
    Source.Within (Source.emitType isUnit (loc.length - 1) parent t) (loc.length - 1)
        (units.flatMap Source.emitUnit) ∧
      ∀ indent, Source.members? (String.ofList (Source.Writer.written indent
        (Source.emitType isUnit (loc.length - 1) parent t))) = some {
          fields := valueField :: t.children.map fun c => fieldName c.path
          defaults := valueField :: t.children.map fun c => fieldName c.path
          listed := t.children.map fun c => fieldName c.path }

/-- Children keep the order of the definitions. The children of a type have increasing positions
in the registry. The types nested in it are those that its children of that kind refer to, in their
order, and the text of the type names all children in their order wherever it names them. -/
theorem childOrder (hu : r.units.result = .ok units) : ChildOrder r units where
  positions t ht := by
    obtain ⟨p, hp, rfl⟩ := (mem_flatMap_types hu).mp ht
    rw [Hierarchy.declAt_children, List.map_map]
    exact Hierarchy.pairwise_position?_keys hp
  implicit t ht c hc := by
    obtain ⟨k, hk, rfl⟩ := exists_key_of_mem_children hu ht hc
    have hdecl (k : Path) : ((Hierarchy.ofRegistry r).declAt k).implicit = true ↔ k ∉ r.paths :=
      Hierarchy.implicit_declAt
    rw [eq_declAt hu ht, Hierarchy.declAt_nested]
    constructor
    · intro hr
      have hku : (Hierarchy.ofRegistry r).isUnit k = false :=
        Bool.eq_false_iff.mpr fun hku => hr (Hierarchy.isUnit_iff.mp hku).1
      have hnested : k ∈ (Hierarchy.ofRegistry r).nestedKeys t.path := by
        simpa [hku] using Hierarchy.mem_keys_iff.mp hk
      exact ⟨_, List.mem_map_of_mem hnested, Hierarchy.path_declAt k, (hdecl k).mpr hr⟩
    · rintro ⟨d, hd, hpath, himplicit⟩
      obtain ⟨k', -, rfl⟩ := List.mem_map.mp hd
      rw [Hierarchy.path_declAt] at hpath
      rw [← hpath]
      exact (hdecl k').mp himplicit
  nested t ht := by
    have hkind : ((·.kind = .nested) ∘ (Hierarchy.ofRegistry r).refAt : Path → Bool) =
        (!(Hierarchy.ofRegistry r).isUnit ·) := by
      funext k
      cases hku : (Hierarchy.ofRegistry r).isUnit k <;> simp [Hierarchy.refAt, hku]
    rw [eq_declAt hu ht, Hierarchy.declAt_nested, Hierarchy.declAt_children, List.filter_map,
      List.map_map, List.map_map, hkind, Hierarchy.nestedKeys]
    refine List.map_congr_left fun k _ => ?_
    rw [Function.comp_apply, Hierarchy.path_declAt]
    rfl
  written _ ht := Source.exists_standsAt ht
  members h := ⟨h.within, h.members?_written fun _ hm => isNamed_of_mem_units hu hm⟩

/-- A cabin that no definition mentions, with types between whose definitions its siblings have
theirs. -/
def interleaved : Registry :=
  .ofNodes <| ["Vehicle", "Vehicle.Cabin.Seat.Row", "Vehicle.Speed", "Vehicle.Cabin.Door.Row",
    "Vehicle.Row"].map fun p => .plainBranch (.ofText p)

theorem childOrder_interleaved : ∃ units, interleaved.units.result = .ok units ∧
    (∃ u ∈ units, u.decl.children.length = 3) ∧ ChildOrder interleaved units := by
  have hthree : interleaved.units.result.toOption.any
      (·.any (·.decl.children.length == 3)) = true := by
    decide +kernel
  cases hu : interleaved.units.result with
  | error e => simp [hu, Except.toOption] at hthree
  | ok units =>
    refine ⟨units, rfl, ?_, childOrder hu⟩
    simpa [hu, Except.toOption] using hthree

example : (["Vehicle.Cabin", "Vehicle.Speed", "Vehicle.Row"].map fun p =>
    interleaved.position? (.ofText p)) = [some 1, some 2, some 4] := by
  decide +kernel

end Registry

end SignalTree
