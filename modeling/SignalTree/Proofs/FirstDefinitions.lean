import Mathlib.Data.Finset.Card
import SignalTree.Proofs.Units
import SignalTree.Source.File

/-!
The first definition of a path stays. A registry holds the nodes that no earlier node of the
same path stands before, every other node is reported and changes nothing, and leaves are shared
by paths, not by definitions: `first_definition_wins`.
-/
namespace SignalTree.Registry

def IsDefinedBefore (nodes : List Node) (n : Node) (place : Nat) : Prop :=
  n.path ∈ (nodes.take place).map Node.path

instance (nodes : List Node) (n : Node) (place : Nat) :
    Decidable (IsDefinedBefore nodes n place) := inferInstanceAs (Decidable (_ ∈ _))

def firstDefinitions (nodes : List Node) : List Node :=
  (nodes.zipIdx.filter fun (n, i) => ¬IsDefinedBefore nodes n i).map Prod.fst

def laterDefinitions (nodes : List Node) : List Node :=
  (nodes.zipIdx.filter fun (n, i) => IsDefinedBefore nodes n i).map Prod.fst

section append

variable (nodes : List Node) (n : Node)

theorem isDefinedBefore_append_iff {m : Node} {i : Nat} (hmem : (m, i) ∈ nodes.zipIdx) :
    IsDefinedBefore (nodes ++ [n]) m i ↔ IsDefinedBefore nodes m i := by
  have hi : i ≤ nodes.length := by
    have := List.snd_lt_of_mem_zipIdx hmem
    omega
  rw [IsDefinedBefore, IsDefinedBefore, List.take_append_of_le_length hi]

theorem map_filter_zipIdx_append (test : Bool → Bool) :
    ((nodes ++ [n]).zipIdx.filter fun (m, i) =>
        test (decide (IsDefinedBefore (nodes ++ [n]) m i))).map Prod.fst =
      (nodes.zipIdx.filter fun (m, i) => test (decide (IsDefinedBefore nodes m i))).map Prod.fst ++
        if test (decide (n.path ∈ nodes.map Node.path)) then [n] else [] := by
  rw [List.zipIdx_append, List.filter_append, List.map_append]
  refine congrArg₂ (· ++ ·) (congrArg (List.map _) (List.filter_congr fun x hx => ?_)) ?_
  · exact congrArg test (decide_eq_decide.mpr (isDefinedBefore_append_iff nodes n hx))
  · have hlast : IsDefinedBefore (nodes ++ [n]) n nodes.length ↔ n.path ∈ nodes.map Node.path := by
      rw [IsDefinedBefore, List.take_left]
    simp only [List.zipIdx_singleton, List.filter_singleton, Nat.zero_add, hlast]
    cases test (decide (n.path ∈ nodes.map Node.path)) <;> rfl

theorem firstDefinitions_append :
    firstDefinitions (nodes ++ [n]) =
      firstDefinitions nodes ++ if n.path ∈ nodes.map Node.path then [] else [n] := by
  rw [← ite_not]
  simpa only [firstDefinitions, decide_not, Bool.not_eq_true', decide_eq_false_iff_not] using
    map_filter_zipIdx_append nodes n not

theorem laterDefinitions_append :
    laterDefinitions (nodes ++ [n]) =
      laterDefinitions nodes ++ if n.path ∈ nodes.map Node.path then [n] else [] := by
  simpa only [laterDefinitions, id_eq, decide_eq_true_eq] using
    map_filter_zipIdx_append nodes n id

theorem ofNodes_append (more : List Node) :
    ofNodes (nodes ++ more) = more.foldl add (ofNodes nodes) :=
  List.foldl_append

end append

theorem mem_paths_add {r : Registry} {n : Node} {p : Path} :
    p ∈ (r.add n).paths ↔ p ∈ r.paths ∨ p = n.path := by
  by_cases h : n.path ∈ r.paths
  · rw [nodes_add_of_mem h]
    exact ⟨.inl, fun hp => hp.elim id (· ▸ h)⟩
  · simp [paths, nodes_add_of_not_mem h]

theorem mem_paths_foldl_add {r : Registry} {nodes : List Node} {p : Path} :
    p ∈ (nodes.foldl add r).paths ↔ p ∈ r.paths ∨ p ∈ nodes.map Node.path := by
  induction nodes generalizing r with
  | nil => simp
  | cons n nodes ih =>
    rw [List.foldl_cons, ih, mem_paths_add, List.map_cons, List.mem_cons, or_assoc]

theorem mem_paths_ofNodes {nodes : List Node} {p : Path} :
    p ∈ (ofNodes nodes).paths ↔ p ∈ nodes.map Node.path := by
  rw [ofNodes, mem_paths_foldl_add]
  simp [empty, paths]

theorem prefix_foldl_add (r : Registry) (nodes : List Node) :
    r.nodes <+: (nodes.foldl add r).nodes := by
  induction nodes generalizing r with
  | nil => exact List.prefix_rfl
  | cons n nodes ih =>
    refine List.IsPrefix.trans ?_ (ih (r.add n))
    by_cases h : n.path ∈ r.paths
    · rw [nodes_add_of_mem h]
    · rw [nodes_add_of_not_mem h]
      exact List.prefix_append ..

theorem foldl_add_eq_iff {r : Registry} {nodes : List Node} :
    (nodes.foldl add r).nodes = r.nodes ↔ ∀ n ∈ nodes, n.path ∈ r.paths := by
  constructor
  · intro h n hn
    have : n.path ∈ (nodes.foldl add r).paths :=
      mem_paths_foldl_add.mpr (.inr (List.mem_map_of_mem hn))
    rwa [paths, h] at this
  · intro h
    induction nodes with
    | nil => rfl
    | cons n nodes ih =>
      rw [List.foldl_cons, nodes_add_of_mem (h n List.mem_cons_self)]
      exact ih fun m hm => h m (List.mem_cons_of_mem n hm)

theorem nodes_ofNodes_eq (nodes : List Node) : (ofNodes nodes).nodes = firstDefinitions nodes := by
  induction nodes using List.reverseRecOn with
  | nil => rfl
  | append_singleton nodes n ih =>
    rw [ofNodes_append, firstDefinitions_append, ← ih]
    split
    · next h =>
      rw [List.append_nil]
      exact congrArg Registry.nodes (nodes_add_of_mem (mem_paths_ofNodes.mpr h))
    · next h => exact nodes_add_of_not_mem (mt mem_paths_ofNodes.mp h)

theorem repeats_append (seen : List Path) (nodes : List Node) (n : Node) :
    repeats seen (nodes ++ [n]) = repeats seen nodes ++
      if n.path ∈ seen ∨ n.path ∈ nodes.map Node.path then [n.path] else [] := by
  induction nodes generalizing seen with
  | nil => simp [repeats]
  | cons m nodes ih =>
    rw [List.cons_append, repeats, repeats]
    by_cases h : m.path ∈ seen
    · have hmem : n.path ∈ seen ∨ n.path ∈ (m :: nodes).map Node.path ↔
          n.path ∈ seen ∨ n.path ∈ nodes.map Node.path := by
        grind
      rw [if_pos (by simpa using h), if_pos (by simpa using h), ih, List.cons_append]
      simp only [hmem]
    · have hmem : n.path ∈ seen ∨ n.path ∈ (m :: nodes).map Node.path ↔
          n.path ∈ m.path :: seen ∨ n.path ∈ nodes.map Node.path := by
        grind
      rw [if_neg (by simpa using h), if_neg (by simpa using h), ih]
      simp only [hmem]

theorem repeats_eq (nodes : List Node) :
    repeats [] nodes = (laterDefinitions nodes).map Node.path := by
  induction nodes using List.reverseRecOn with
  | nil => rfl
  | append_singleton nodes n ih =>
    rw [repeats_append, laterDefinitions_append, List.map_append, ih]
    congr 1
    by_cases h : n.path ∈ nodes.map Node.path <;> simp [h]

theorem mem_sharedLeaves_ofNodes {nodes : List Node} {s : Segment} :
    s ∈ (ofNodes nodes).sharedLeaves ↔
      ∃ n ∈ nodes, ∃ m ∈ nodes, n.path ≠ m.path ∧ n.path.leaf = s ∧ m.path.leaf = s := by
  let r := ofNodes nodes
  let ending := r.paths.toFinset.filter (·.leaf = s)
  have hcount : (r.paths.map Path.leaf).count s = ending.card := by
    have hnodup : r.paths.Nodup := r.nodup
    rw [List.count, List.countP_map, List.countP_eq_length_filter,
      ← List.toFinset_card_of_nodup (hnodup.filter _), List.toFinset_filter]
    exact congrArg Finset.card (Finset.filter_congr fun p _ => by simp)
  have hending {p : Path} : p ∈ ending ↔ (∃ n ∈ nodes, n.path = p) ∧ p.leaf = s := by
    simp [ending, r, mem_paths_ofNodes]
  rw [Hierarchy.mem_sharedLeaves, hcount, Finset.one_lt_card]
  constructor
  · rintro ⟨p, hp, q, hq, hne⟩
    obtain ⟨⟨n, hn, rfl⟩, hleaf⟩ := hending.mp hp
    obtain ⟨⟨m, hm, rfl⟩, hleaf'⟩ := hending.mp hq
    exact ⟨n, hn, m, hm, hne, hleaf, hleaf'⟩
  · rintro ⟨n, hn, m, hm, hne, hleaf, hleaf'⟩
    exact ⟨_, hending.mpr ⟨⟨n, hn, rfl⟩, hleaf⟩, _, hending.mpr ⟨⟨m, hm, rfl⟩, hleaf'⟩, hne⟩

def rendered (nodes : List Node) (module : String) : Outcome (List SourceFile) := do
  let r ← register nodes
  let units ← r.units
  Source.renderModule units module

theorem ofNodes_insert {nodes : List Node} {n : Node} (h : n.path ∈ nodes.map Node.path)
    (more : List Node) : ofNodes (nodes ++ n :: more) = ofNodes (nodes ++ more) := by
  rw [ofNodes_append, ofNodes_append, List.foldl_cons,
    nodes_add_of_mem (mem_paths_ofNodes.mpr h)]

theorem log_register (nodes : List Node) : (register nodes).log =
    (laterDefinitions nodes).map fun n => .duplicateDropped n.path := by
  rw [register, repeats_eq, List.map_map]
  rfl

theorem result_rendered (nodes : List Node) (module : String) : (rendered nodes module).result =
    ((ofNodes nodes).units >>= (Source.renderModule · module)).result :=
  Outcome.result_bind ..

/-- What registering some definitions keeps of them, and what more definitions add to that. -/
structure FirstWins (nodes : List Node) : Prop where
  kept : (register nodes).result = .ok (ofNodes nodes) ∧
    (ofNodes nodes).nodes = firstDefinitions nodes
  reported : (register nodes).log =
      (laterDefinitions nodes).map (fun n => .duplicateDropped n.path) ∧
    ∀ e ∈ (register nodes).log, e.level = .debug
  extended : ∀ more, (ofNodes nodes).nodes <+: (ofNodes (nodes ++ more)).nodes ∧
    ((ofNodes (nodes ++ more)).nodes = (ofNodes nodes).nodes ↔
      ∀ n ∈ more, n.path ∈ nodes.map Node.path)
  inserted : ∀ (n : Node) more, n.path ∈ nodes.map Node.path →
    (ofNodes (nodes ++ n :: more)).nodes = (ofNodes (nodes ++ more)).nodes ∧
    (ofNodes (nodes ++ n :: more)).sharedLeaves = (ofNodes (nodes ++ more)).sharedLeaves ∧
    (ofNodes (nodes ++ n :: more)).units = (ofNodes (nodes ++ more)).units ∧
    ∀ module, (rendered (nodes ++ n :: more) module).result =
      (rendered (nodes ++ more) module).result
  shared : ∀ s, s ∈ (ofNodes nodes).sharedLeaves ↔
    ∃ n ∈ nodes, ∃ m ∈ nodes, n.path ≠ m.path ∧ n.path.leaf = s ∧ m.path.leaf = s

/-- The first definition of a path stays. Registering keeps exactly the first definition of
each path, in order and as it is, and reports the path of every later one. So more definitions
only ever add nodes behind, and add none exactly if all their paths are there; a definition of a
path that stands before it changes nothing, neither the leaves that are shared, nor the units and
what is reported of them, nor the files. A leaf is shared if and only if two paths that differ
end in it. -/
theorem first_definition_wins (nodes : List Node) : FirstWins nodes where
  kept := ⟨rfl, nodes_ofNodes_eq nodes⟩
  reported := by
    rw [log_register, List.forall_mem_map]
    exact ⟨rfl, fun n _ => rfl⟩
  extended more := by
    rw [ofNodes_append, foldl_add_eq_iff]
    exact ⟨prefix_foldl_add _ more, forall₂_congr fun n _ => mem_paths_ofNodes⟩
  inserted n more h := by
    simp only [result_rendered, ofNodes_insert h, and_self, implies_true]
  shared _ := mem_sharedLeaves_ofNodes

theorem first_definition_wins_sample :
    let first : List Node := ["Vehicle", "Vehicle.Row"].map fun p => .plainBranch (.ofText p)
    let again : Node := ⟨.ofText "Vehicle.Row", .new "1" "sensor"⟩
    let more : List Node := [.plainBranch (.ofText "Vehicle.Cabin.Row")]
    again.path ∈ first.map Node.path ∧
      (ofNodes (first ++ again :: more)).nodes = first ++ more ∧
      (register (first ++ again :: more)).log = [.duplicateDropped again.path] ∧
      (ofNodes (first ++ again :: more)).units = (ofNodes (first ++ more)).units ∧
      ∃ s, s ∈ (ofNodes (first ++ again :: more)).sharedLeaves := by
  intro first again more
  have hall := first_definition_wins (first ++ again :: more)
  have hmem : again.path ∈ first.map Node.path := by decide
  obtain ⟨-, -, hunits, -⟩ := (first_definition_wins first).inserted again more hmem
  refine ⟨hmem, hall.kept.2.trans (by decide), hall.reported.1.trans (by decide), hunits,
    again.path.leaf, (hall.shared _).mpr ?_⟩
  exact ⟨again, by decide, .plainBranch (.ofText "Vehicle.Cabin.Row"), by decide, by decide, rfl,
    by decide⟩

end SignalTree.Registry
