import SignalTree.Proofs.Forest
import SignalTree.Proofs.ModuleTree
import SignalTree.Proofs.UnitNames

/-!
The names in an index. Modules, types and traits share one namespace there. Modules and
types of units keep apart, but no check knows of the two traits, and a unit whose leaf is
`Node` or `Child` is named like one of them (`indexNames`).
-/
namespace SignalTree

theorem sanitize_eq_iff {keep : Char → Bool} {cs ds : List Char} (hunderscore : '_' ∉ ds)
    (hkeep : ∀ d ∈ ds, keep d = true) : sanitize keep cs = ds ↔ cs = ds := by
  constructor
  · intro h
    have hall : ∀ c ∈ cs, keep c = true := by
      intro c hc
      by_contra hne
      have hmem : (if keep c then c else '_') ∈ sanitize keep cs := List.mem_map_of_mem hc
      rw [if_neg hne, h] at hmem
      exact hunderscore hmem
    rw [← h, sanitize, List.map_congr_left fun c hc => if_pos (hall c hc), List.map_id']
  · rintro rfl
    rw [sanitize, List.map_congr_left fun c hc => if_pos (hkeep c hc), List.map_id']

theorem Path.typeName_eq_iff {p : Path} {name : String} (hunderscore : '_' ∉ name.toList)
    (hname : name.toList.all isTypeNameChar = true) :
    p.typeName = typePrefix ++ name ↔ p.leaf.text = name := by
  rw [Path.typeName, String.append_right_inj, ← String.toList_inj, String.toList_ofList,
    sanitize_eq_iff hunderscore (List.all_eq_true.mp hname), String.toList_inj]

namespace Source

def Entry.name : Entry → String
  | .submodule name => name
  | .export path => path.name
  | .trait name => name

/-- All names that an index introduces. -/
def introduced (index : List Outline) : List String := (index.filterMap entryOf?).map Entry.name

def traitNames : List String := [nodeTrait, childTrait]

theorem introduced_renderIndex {units : List TypeUnit}
    (hunits : ∀ u ∈ units, IsTypeName u.decl.name) (module : String) :
    ∃ os, Reads (renderIndex units module) (indexNote module) os ∧
      introduced os = units.map (fun u => moduleName u.decl.name) ++
        (units.map (·.decl.name) ++ traitNames) := by
  refine ⟨_, reads_renderIndex hunits module, ?_⟩
  rw [introduced, entries_indexOutline hunits]
  simp [Entry.name, exportPath, traitNames, Function.comp_def]

theorem moduleName_ne_trait {trait : String} (h : trait ∈ traitNames) (name : String) :
    moduleName name ≠ trait := by
  intro heq
  have hupper : 'V' ∈ trait.toList := by
    rcases List.mem_pair.mp h with rfl | rfl <;> decide +kernel
  rw [← heq] at hupper
  exact absurd (isIdentChar_of_mem_moduleName hupper) (by decide)

theorem typeName_mem_traitNames {p : Path} :
    p.typeName ∈ traitNames ↔ p.leaf.text = "Node" ∨ p.leaf.text = "Child" := by
  have hnode : p.typeName = typePrefix ++ "Node" ↔ p.leaf.text = "Node" :=
    Path.typeName_eq_iff (by decide +kernel) (by decide +kernel)
  have hchild : p.typeName = typePrefix ++ "Child" ↔ p.leaf.text = "Child" :=
    Path.typeName_eq_iff (by decide +kernel) (by decide +kernel)
  rw [← hnode, ← hchild]
  exact List.mem_pair

section

variable {units : List TypeUnit}

theorem nodup_unit_names (hmodules : (units.map fun u => moduleName u.decl.name).Nodup) :
    (units.map (·.decl.name)).Nodup :=
  List.Nodup.of_map moduleName (by rwa [List.map_map])

variable (hunits : ∀ u ∈ units, IsTypeName u.decl.name)

include hunits

theorem disjoint_moduleNames :
    (units.map fun u => moduleName u.decl.name).Disjoint
      (units.map (·.decl.name) ++ traitNames) := by
  intro name hmodule hname
  obtain ⟨u, -, rfl⟩ := List.mem_map.mp hmodule
  rcases List.mem_append.mp hname with hname | hname
  · obtain ⟨v, hv, heq⟩ := List.mem_map.mp hname
    exact (hunits v hv).ne_moduleName _ heq.symm
  · exact moduleName_ne_trait hname _ rfl

variable (hmodules : (units.map fun u => moduleName u.decl.name).Nodup)

include hmodules

theorem nodup_introduced_iff :
    (units.map (fun u => moduleName u.decl.name) ++
      (units.map (·.decl.name) ++ traitNames)).Nodup ↔
        ∀ u ∈ units, u.decl.name ∉ traitNames := by
  have htraits : traitNames.Nodup := by decide +kernel
  rw [List.nodup_append', and_iff_right hmodules, and_iff_left (disjoint_moduleNames hunits),
    List.nodup_append', and_iff_right (nodup_unit_names hmodules), and_iff_right htraits]
  simp [List.Disjoint]

theorem count_introduced_le {name : String} (hname : name ∉ traitNames) :
    (units.map (fun u => moduleName u.decl.name) ++
      (units.map (·.decl.name) ++ traitNames)).count name ≤ 1 := by
  have hrest : (units.map (fun u => moduleName u.decl.name) ++ units.map (·.decl.name)).Nodup := by
    refine List.nodup_append'.mpr ⟨hmodules, nodup_unit_names hmodules, ?_⟩
    exact (List.disjoint_append_right.mp (disjoint_moduleNames hunits)).1
  rw [← List.append_assoc, List.count_append, List.count_eq_zero_of_not_mem hname, Nat.add_zero]
  exact List.nodup_iff_count_le_one.mp hrest name

end

end Source

namespace Registry

open Source

variable {r : Registry} {units : List TypeUnit} {module : String} {files : List SourceFile}

theorem forall_units_iff (hu : r.units.result = .ok units) (P : Path → Prop) :
    (∀ u ∈ units, P u.decl.path) ↔
      ∀ n ∈ r.nodes, (Hierarchy.ofRegistry r).isTopLevel n.path = true → P n.path := by
  rw [(units_eq_ok hu).1]
  simp only [List.forall_mem_map, List.mem_filter, and_imp]
  rfl

/-- The index of a registry introduces the module and the type of every unit and two traits.
Only the names of the traits can be introduced twice, and they are when a unit has the leaf
`Node` or `Child`. -/
theorem indexNames (hu : r.units.result = .ok units)
    (hf : (renderModule units module).result = .ok files) :
    ∃ f ∈ files, f.name = indexFile ∧ ∃ index, Reads f (indexNote module) index ∧
      introduced index = units.map (fun u => moduleName u.decl.name) ++
        (units.map (·.decl.name) ++ traitNames) ∧
      (∀ name, 1 < (introduced index).count name → name ∈ traitNames) ∧
      ((introduced index).Nodup ↔
        ∀ n ∈ r.nodes, (Hierarchy.ofRegistry r).isTopLevel n.path = true →
          n.path.leaf.text ≠ "Node" ∧ n.path.leaf.text ≠ "Child") := by
  have hnamed : ∀ u ∈ units, u.IsNamed := fun u hm => isNamed_of_mem_units hu hm
  have hunits := isTypeName_of_named hnamed
  have hmodules : (units.map fun u => moduleName u.decl.name).Nodup := by
    have hdistinct := (allDistinct_indexItems hnamed hf).1
    rwa [indexItems, List.map_map] at hdistinct
  obtain ⟨index, hreads, hnames⟩ := introduced_renderIndex hunits module
  refine ⟨_, renderIndex_mem hf, rfl, index, hreads, hnames, ?_, ?_⟩
  · intro name hcount
    by_contra hname
    rw [hnames] at hcount
    exact absurd (count_introduced_le hunits hmodules hname) (Nat.not_le.mpr hcount)
  · rw [hnames, nodup_introduced_iff hunits hmodules,
      ← forall_units_iff hu fun p => p.leaf.text ≠ "Node" ∧ p.leaf.text ≠ "Child"]
    refine forall₂_congr fun u hm => ?_
    rw [name_of_mem_units hu hm, typeName_mem_traitNames, not_or]

theorem indexNames_sample : ∃ units files, sample.units.result = .ok units ∧
    (renderModule units "vehicle").result = .ok files ∧
    ∃ f ∈ files, f.name = indexFile ∧ ∃ index, Reads f (indexNote "vehicle") index ∧
      (introduced index).Nodup := by
  have hok : sample.units.result.toOption.any (fun units =>
      (renderModule units "vehicle").result.isOk && true) = true := by
    decide +kernel
  obtain ⟨units, files, hu, hf, -⟩ := exists_rendered hok
  obtain ⟨f, hfile, hname, index, hreads, -, -, hnodup⟩ := indexNames hu hf
  have hleaves : ∀ n ∈ sample.nodes, (Hierarchy.ofRegistry sample).isTopLevel n.path = true →
      n.path.leaf.text ≠ "Node" ∧ n.path.leaf.text ≠ "Child" := by
    decide +kernel
  exact ⟨units, files, hu, hf, f, hfile, hname, index, hreads, hnodup.mpr hleaves⟩

def traitSample : Registry :=
  .ofNodes (["Vehicle", "Vehicle.Node"].map fun p => .plainBranch (.ofText p))

/-- A registry whose index exports a type and defines a trait of one name is rendered. -/
theorem trait_introduced_twice : ∃ units files, traitSample.units.result = .ok units ∧
    (renderModule units "vss").result = .ok files ∧
    ∃ f ∈ files, f.name = indexFile ∧ ∃ index, outline? f.contents = some index ∧
      (introduced index).count "VssNode" = 2 ∧ ¬(introduced index).Nodup := by
  have hok : traitSample.units.result.toOption.any (fun units =>
      (renderModule units "vss").result.isOk &&
        units.map (·.decl.name) == ["VssVehicle", "VssNode"]) = true := by
    decide +kernel
  obtain ⟨units, files, hu, hf, hunitNames⟩ := exists_rendered hok
  have hunits := isTypeName_of_named fun u hm => isNamed_of_mem_units hu hm
  obtain ⟨index, hreads, hnames⟩ := introduced_renderIndex hunits "vss"
  have hmodules : units.map (fun u => moduleName u.decl.name) =
      (units.map (·.decl.name)).map moduleName := by
    rw [List.map_map]
    rfl
  have htwice : (introduced index).count "VssNode" = 2 := by
    rw [hnames, hmodules, beq_iff_eq.mp hunitNames]
    decide +kernel
  refine ⟨units, files, hu, hf, _, renderIndex_mem hf, rfl, index,
    hreads.outline?_eq_iff.mpr (by decide +kernel), htwice, ?_⟩
  intro hnodup
  have hle := List.nodup_iff_count_le_one.mp hnodup "VssNode"
  omega

end Registry

end SignalTree
