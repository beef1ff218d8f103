import SignalTree.Proofs.FileText
import SignalTree.Proofs.Standing
import SignalTree.Proofs.Units

/-!
The files of a module as one tree. The index names the modules, and what a file
declares is declared in the module it is named for. Files are read whole.
-/
namespace SignalTree.Source

namespace Entry

def submodule? : Entry → Option String
  | .submodule name => some name
  | _ => none

def export? : Entry → Option TypePath
  | .export path => some path
  | _ => none

def trait? : Entry → Option String
  | .trait name => some name
  | _ => none

end Entry

/-- An index and its modules, each with what is read of its file. -/
structure ModuleTree where
  index : List Outline
  modules : List (String × List Outline)

def submodules (index : List Outline) : List String :=
  (index.filterMap entryOf?).filterMap Entry.submodule?

def contents? (files : List SourceFile) (name : String) : Option String :=
  (files.find? (·.name == name)).map (·.contents)

namespace ModuleTree

def exports (tree : ModuleTree) : List TypePath :=
  (tree.index.filterMap entryOf?).filterMap Entry.export?

def traits (tree : ModuleTree) : List String :=
  (tree.index.filterMap entryOf?).filterMap Entry.trait?

def decls (tree : ModuleTree) : List Decl :=
  tree.modules.map fun m => .module m.1 (Outline.declsOf m.2)

def readModule? (files : List SourceFile) (name : String) : Option (String × List Outline) :=
  ((contents? files (name ++ ".rs")).bind outline?).map (name, ·)

/-- The tree that some files hold: the index, and the file of every module that it names. -/
def read? (files : List SourceFile) : Option ModuleTree := do
  let index ← (contents? files indexFile).bind outline?
  return ⟨index, ← (submodules index).mapM (readModule? files)⟩

theorem read?_eq_some_iff {files : List SourceFile} {tree : ModuleTree} :
    read? files = some tree ↔ (contents? files indexFile).bind outline? = some tree.index ∧
      (submodules tree.index).mapM (readModule? files) = some tree.modules := by
  obtain ⟨index, modules⟩ := tree
  simp [read?, Option.bind_eq_some_iff]

end ModuleTree

theorem firstRepeated?_eq_none {seen names : List String} :
    firstRepeated? seen names = none ↔ Fresh seen names := by
  induction names generalizing seen with
  | nil => simp [firstRepeated?, fresh_nil]
  | cons name names ih =>
    rw [fresh_cons, ← ih, firstRepeated?]
    by_cases h : name ∈ seen <;> simp [h]

theorem requireDistinct_eq_ok {files : List SourceFile} {x : PUnit} :
    requireDistinct files = .ok x ↔ (files.map SourceFile.name).Nodup := by
  rw [← fresh_nothing, ← firstRepeated?_eq_none, requireDistinct]
  cases firstRepeated? [] (files.map SourceFile.name) <;> simp

theorem mapM_renderUnit_eq_ok {units : List TypeUnit} {files : List SourceFile}
    (h : (units.mapM renderUnit).result = .ok files) :
    files = units.map fileOf ∧
      ∀ u ∈ units, ∃ x, checkUnit u = .ok x := by
  induction units generalizing files with
  | nil =>
    cases h
    simp
  | cons u units ih =>
    rw [List.mapM_cons] at h
    obtain ⟨file, hfile, h, -⟩ := Outcome.bind_eq_ok h
    obtain ⟨rest, hrest, h, -⟩ := Outcome.bind_eq_ok h
    cases h
    obtain ⟨hcheck, rfl⟩ := renderUnit_eq_ok.mp hfile
    obtain ⟨rfl, hunits⟩ := ih hrest
    exact ⟨rfl, List.forall_mem_cons.mpr ⟨hcheck, hunits⟩⟩

/-- The files of a module, if it is rendered. -/
theorem renderModule_eq_ok {units : List TypeUnit} {module : String} {files : List SourceFile}
    (h : (renderModule units module).result = .ok files) :
    files = units.map fileOf ++ [renderIndex units module] ∧
      (∀ u ∈ units, ∃ x, checkUnit u = .ok x) ∧ (files.map SourceFile.name).Nodup := by
  obtain ⟨rendered, hrendered, h, -⟩ := Outcome.bind_eq_ok h
  obtain ⟨x, hdistinct, h, -⟩ := Outcome.bind_eq_ok h
  cases h
  obtain ⟨rfl, hunits⟩ := mapM_renderUnit_eq_ok hrendered
  exact ⟨rfl, hunits, requireDistinct_eq_ok.mp hdistinct⟩

section

variable {units : List TypeUnit} {module : String} {files : List SourceFile}
  (h : (renderModule units module).result = .ok files)

include h

theorem renderIndex_mem : renderIndex units module ∈ files := by
  rw [(renderModule_eq_ok h).1]
  exact List.mem_append_right _ (List.mem_singleton_self _)

theorem fileOf_mem {u : TypeUnit} (hm : u ∈ units) : fileOf u ∈ files := by
  rw [(renderModule_eq_ok h).1]
  exact List.mem_append_left _ (List.mem_map_of_mem hm)

end

theorem contents?_eq_some {files : List SourceFile} (hnodup : (files.map SourceFile.name).Nodup)
    {f : SourceFile} (hf : f ∈ files) {name : String} (hname : f.name = name) :
    contents? files name = some f.contents := by
  subst hname
  induction files with
  | nil => simp at hf
  | cons g files ih =>
    rw [List.map_cons, List.nodup_cons] at hnodup
    rcases List.mem_cons.mp hf with rfl | hf
    · simp [contents?]
    · have hne : g.name ≠ f.name := fun heq => hnodup.1 (heq ▸ List.mem_map_of_mem hf)
      rw [← ih hnodup.2 hf, contents?, contents?, List.find?_cons_of_neg]
      simpa using hne

theorem mapM_map_eq_some_iff {α β γ : Type} {f : β → Option γ} {g : α → β} {h : α → γ}
    {xs : List α} : (xs.map g).mapM f = some (xs.map h) ↔ ∀ x ∈ xs, f (g x) = some (h x) := by
  induction xs with
  | nil => simp
  | cons x xs ih =>
    rw [List.map_cons, List.mapM_cons, List.map_cons, List.forall_mem_cons, ← ih]
    cases f (g x) <;> cases (xs.map g).mapM f <;> simp

/-- What is written for some units, each below what its note is read as. -/
def notedTree (notes : TypeUnit → List Outline) (units : List TypeUnit) : ModuleTree where
  index := indexOutline units
  modules := units.map fun u => (moduleName u.decl.name, notes u ++ unitOutline u)

/-- What is written for some units, and nothing else. -/
def moduleTree (units : List TypeUnit) : ModuleTree := notedTree (fun _ => []) units

/-- What the path of a unit adds to its file, if that can be read at all. -/
def readNote (u : TypeUnit) : List Outline := (outline? (unitNote u)).getD []

section

variable {units : List TypeUnit} (hunits : ∀ u ∈ units, u.IsNamed)

include hunits

theorem isTypeName_of_named : ∀ u ∈ units, IsTypeName u.decl.name := fun u hm =>
  (hunits u hm).types _ (TypeDecl.self_mem_types _)

theorem submodules_indexOutline :
    submodules (indexOutline units) = units.map fun u => moduleName u.decl.name := by
  rw [submodules, entries_indexOutline (isTypeName_of_named hunits)]
  simp [List.filterMap_map, Function.comp_def, Entry.submodule?]

theorem exports_moduleTree :
    (moduleTree units).exports = units.map fun u => exportPath u.decl.name := by
  rw [ModuleTree.exports, moduleTree, notedTree, entries_indexOutline (isTypeName_of_named hunits)]
  simp [List.filterMap_map, Function.comp_def, Entry.export?]

theorem traits_moduleTree : (moduleTree units).traits = [nodeTrait, childTrait] := by
  rw [ModuleTree.traits, moduleTree, notedTree, entries_indexOutline (isTypeName_of_named hunits)]
  simp [List.filterMap_map, Function.comp_def, Entry.trait?]

theorem decls_moduleTree : (moduleTree units).decls = Item.declsOf (indexItems units) := by
  rw [ModuleTree.decls, moduleTree, notedTree, List.map_map, Item.declsOf_eq_flatMap, indexItems,
    List.flatMap_map, List.map_eq_flatMap]
  refine List.flatMap_congr fun u hm => ?_
  rw [Function.comp_apply, List.nil_append, declsOf_unitOutline (hunits u hm)]
  rfl

variable {module : String} {files : List SourceFile}
  (h : (renderModule units module).result = .ok files)

include h

theorem read?_eq_notedTree_iff {notes : TypeUnit → List Outline} :
    ModuleTree.read? files = some (notedTree notes units) ↔
      IsSilent (indexNote module) ∧ ∀ u ∈ units, outline? (unitNote u) = some (notes u) := by
  obtain ⟨-, -, hnodup⟩ := renderModule_eq_ok h
  have hindex : contents? files indexFile = some (renderIndex units module).contents :=
    contents?_eq_some hnodup (renderIndex_mem h) rfl
  have hunit : ∀ u ∈ units,
      contents? files (moduleName u.decl.name ++ ".rs") = some (fileOf u).contents := fun u hm =>
    contents?_eq_some hnodup (fileOf_mem h hm) rfl
  rw [ModuleTree.read?_eq_some_iff, notedTree, hindex, Option.bind_some,
    (reads_renderIndex (isTypeName_of_named hunits) module).outline?_eq_iff,
    submodules_indexOutline hunits, mapM_map_eq_some_iff]
  refine and_congr_right fun _ => forall₂_congr fun u hm => ?_
  rw [ModuleTree.readModule?, hunit u hm, Option.bind_some,
    ← (reads_fileOf (hunits u hm)).outline?_eq_append_iff, Option.map_eq_some_iff]
  simp

/-- The files are read as what is written for the units, and nothing else, if and only if the
notes in their headers are silent. -/
theorem read?_eq_moduleTree_iff : ModuleTree.read? files = some (moduleTree units) ↔
    IsSilent (indexNote module) ∧ ∀ u ∈ units, IsSilent (unitNote u) := by
  simp only [moduleTree, read?_eq_notedTree_iff hunits h, outline?_eq_nil_iff]

end

variable {units : List TypeUnit} {module : String} {files : List SourceFile}

theorem allDistinct_indexItems (hunits : ∀ u ∈ units, u.IsNamed)
    (h : (renderModule units module).result = .ok files) :
    Item.AllDistinct (indexItems units) := by
  obtain ⟨rfl, hcheck, hnodup⟩ := renderModule_eq_ok h
  constructor
  · rw [List.map_append, List.map_map] at hnodup
    have hnames : (units.map fun u => moduleName u.decl.name ++ ".rs").Nodup :=
      hnodup.of_append_left
    rw [indexItems, List.map_map]
    refine List.Nodup.of_map (· ++ ".rs") ?_
    rwa [List.map_map]
  · rw [Item.eachDistinct_iff]
    intro i hi
    obtain ⟨u, hm, rfl⟩ := List.mem_map.mp hi
    exact (decides_checkUnit (hunits u hm).types).ok_iff.mp (hcheck u hm)

/-- Evaluation shows that a registry is rendered, and any test of its units. -/
theorem exists_rendered {r : Registry} {test : List TypeUnit → Bool}
    (h : r.units.result.toOption.any (fun units =>
      (renderModule units module).result.isOk && test units) = true) :
    ∃ units files, r.units.result = .ok units ∧
      (renderModule units module).result = .ok files ∧ test units = true := by
  cases hu : r.units.result with
  | error e => simp [hu, Except.toOption] at h
  | ok units =>
    rw [hu] at h
    obtain ⟨hok, htest⟩ := (Bool.and_eq_true _ _).mp h
    cases hf : (renderModule units module).result with
    | error e =>
      rw [hf] at hok
      cases hok
    | ok files => exact ⟨units, files, rfl, hf, htest⟩

end SignalTree.Source
