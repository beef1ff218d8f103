import SignalTree.Proofs.Searching

/-!
Which files a search for definitions lists, and in which order. Found paths are compared by their
components, so `a/b` comes before `a-b`, and a search below a directory depends on nothing but the
files that are there: `discovers_definition_files`.
-/
namespace SignalTree

namespace Text

variable {sep : Char} {cs : List Char}

theorem afterLast?_eq_none : afterLast? sep cs = none ↔ sep ∉ cs := by
  induction cs with
  | nil => simp [afterLast?]
  | cons c rest ih =>
    rw [afterLast?]
    cases h : afterLast? sep rest with
    | some after => simpa using fun _ => of_not_not fun hnot => by simp [ih.mpr hnot] at h
    | none => simp [ih.mp h, eq_comm]

theorem afterLast?_eq_some {after : List Char} :
    afterLast? sep cs = some after ↔ ∃ before, cs = before ++ sep :: after ∧ sep ∉ after := by
  constructor
  · intro h
    induction cs with
    | nil => cases h
    | cons c rest ih =>
      rw [afterLast?] at h
      cases hrest : afterLast? sep rest with
      | some other =>
        rw [hrest] at h
        obtain ⟨before, hsplit, hnot⟩ := ih (hrest.trans h)
        exact ⟨c :: before, by rw [hsplit, List.cons_append], hnot⟩
      | none =>
        rw [hrest] at h
        obtain ⟨rfl, rfl⟩ : c = sep ∧ rest = after := by simpa using h
        exact ⟨[], rfl, afterLast?_eq_none.mp hrest⟩
  · rintro ⟨before, rfl, hnot⟩
    refine afterLast?_append ?_ before
    simp [afterLast?, afterLast?_eq_none.mpr hnot]

end Text

namespace FilePath

open Disk FileTree

/-! Components. -/

inductive Component where
  | root
  | here
  | up
  | name (text : String)

namespace Component

def ofPiece (piece : String) : Component :=
  if piece = "." then here else if piece = ".." then up else name piece

inductive Before : Component → Component → Prop
  | kind {a b : Component} (h : a.ctorIdx < b.ctorIdx) : Before a b
  | name {s t : String} (h : s < t) : Before (name s) (name t)

end Component

def components (p : FilePath) : List Component :=
  (if p.isAbsolute then [.root] else []) ++
    (p.pieces.zipIdx.filter isStep).map (Component.ofPiece ·.1)

/-- Paths are compared component by component, a path comes before what it leads on to. -/
def Before (p q : FilePath) : Prop := List.Lex Component.Before p.components q.components

theorem filter_isStep_of_names {names : List String} (hnames : ∀ name ∈ names, IsEntryName name)
    (position : Nat) : ((names.zipIdx position).filter isStep).map (Component.ofPiece ·.1) =
      names.map .name := by
  have hsteps : (names.zipIdx position).filter isStep = names.zipIdx position := by
    refine List.filter_eq_self.mpr fun e he => ?_
    have hname := hnames e.1 (List.fst_mem_of_mem_zipIdx he)
    simp [isStep, hname.nonempty, hname.not_dot]
  have hnamed : ∀ name ∈ names, Component.ofPiece name = .name name := fun name hname => by
    rw [Component.ofPiece, if_neg (hnames name hname).not_dot, if_neg (hnames name hname).not_dots]
  calc ((names.zipIdx position).filter isStep).map (Component.ofPiece ·.1)
    _ = ((names.zipIdx position).map Prod.fst).map Component.ofPiece := by
      rw [hsteps, List.map_map]
      rfl
    _ = names.map .name := by rw [List.zipIdx_map_fst, List.map_congr_left hnamed]

theorem components_below (root : FilePath) : ∃ front, ∀ names : List String, names ≠ [] →
    (∀ name ∈ names, IsEntryName name) →
    (root.below names).components = front ++ names.map .name := by
  obtain ⟨before, -, hbelow⟩ := pieces_below root
  refine ⟨(if root.isAbsolute then [.root] else []) ++
    (before.zipIdx.filter isStep).map (Component.ofPiece ·.1), fun names hne hnames => ?_⟩
  obtain ⟨hpieces, habs⟩ := hbelow names hne hnames
  rw [components, habs, hpieces, List.zipIdx_append, List.filter_append, List.map_append,
    filter_isStep_of_names hnames, List.append_assoc]

theorem lex_of_placeLe : ∀ {xs ys : Place}, placeLe xs ys = true → xs ≠ ys →
    List.Lex Component.Before (xs.map .name) (ys.map .name)
  | [], [], _, hne => absurd rfl hne
  | [], _ :: _, _, _ => .nil
  | _ :: _, [], hle, _ => by simp [placeLe] at hle
  | x :: xs, y :: ys, hle, hne => by
    simp only [placeLe, Bool.or_eq_true, decide_eq_true_eq, Bool.and_eq_true, beq_iff_eq] at hle
    rcases hle with hlt | ⟨rfl, hle⟩
    · exact .rel (.name hlt)
    · exact .cons (lex_of_placeLe hle fun h => hne (congrArg (x :: ·) h))

theorem before_below (root : FilePath) {xs ys : Place} (hxs : xs ≠ []) (hys : ys ≠ [])
    (hxnames : ∀ name ∈ xs, IsEntryName name) (hynames : ∀ name ∈ ys, IsEntryName name)
    (hle : placeLe xs ys = true) (hne : xs ≠ ys) : (root.below xs).Before (root.below ys) := by
  obtain ⟨front, hcomponents⟩ := components_below root
  rw [Before, hcomponents xs hxs hxnames, hcomponents ys hys hynames]
  exact .append_left _ (lex_of_placeLe hle hne) front

example : Before ⟨"vss/a/b.json"⟩ ⟨"vss/a-b.json"⟩ := .cons (.rel (.name (by decide)))

/-! Searches that do not start. -/

theorem foldlM_searchStep_ne_none {p : FilePath} (hempty : p.text ≠ "") (hhere : p ≠ here)
    {pieces : List String} (hslash : ∀ piece ∈ pieces, '/' ∉ piece.toList) :
    pieces.foldlM searchStep p ≠ none := by
  induction pieces generalizing p with
  | nil => exact Option.some_ne_none p
  | cons piece rest ih =>
    obtain ⟨hpiece, hrest⟩ := List.forall_mem_cons.mp hslash
    have hmem : '/' ∈ (p.join piece).text.toList := by
      have hhead : piece.toList.head? ≠ some '/' := fun h => hpiece (List.mem_of_mem_head? h)
      rw [join, if_neg (not_or.mpr ⟨hhead, hempty⟩)]
      split
      · next hlast => simp [List.mem_of_mem_getLast? hlast]
      · simp
    rw [List.foldlM_cons, searchStep, if_neg hhere]
    refine ih (fun h => ?_) (fun h => ?_) hrest
    · simp [h] at hmem
    · simp [h, here] at hmem

theorem foldlM_searchStep_here {pieces : List String}
    (hslash : ∀ piece ∈ pieces, '/' ∉ piece.toList) : pieces.foldlM searchStep here = none ↔
      ∃ n rest, pieces = List.replicate n "." ++ "" :: rest := by
  induction pieces with
  | nil => simp
  | cons piece rest ih =>
    obtain ⟨hpiece, hrest⟩ := List.forall_mem_cons.mp hslash
    rw [List.foldlM_cons, searchStep, if_pos rfl]
    by_cases hempty : piece = ""
    · subst hempty
      exact ⟨fun _ => ⟨0, rest, rfl⟩, fun _ => rfl⟩
    · rw [if_neg (by simpa using hempty)]
      by_cases hdot : piece = "."
      · subst hdot
        refine (ih hrest).trans ?_
        constructor
        · rintro ⟨n, more, rfl⟩
          exact ⟨n + 1, more, rfl⟩
        · rintro ⟨_ | n, more, h⟩
          · simp at h
          · exact ⟨n, more, (List.cons.inj h).2⟩
      · refine iff_of_false (foldlM_searchStep_ne_none hempty ?_ hrest) ?_
        · exact fun h => hdot (congrArg text h)
        · rintro ⟨_ | n, more, h⟩
          · exact hempty (List.cons.inj h).1
          · exact hdot (List.cons.inj h).1

/-- A search from a relative path starts unless an empty piece follows nothing but dots. -/
theorem searchRoot?_eq_none_iff {dir : FilePath} : dir.searchRoot? = none ↔
    dir.isAbsolute = false ∧ ∃ n rest, dir.pieces = List.replicate n "." ++ "" :: rest := by
  have hslash : ∀ piece ∈ dir.pieces, '/' ∉ piece.toList := fun _ => slash_not_mem
  rw [searchRoot?]
  split
  · next habs =>
    have hrest : ∀ piece ∈ dir.pieces.drop 1, '/' ∉ piece.toList :=
      fun piece h => hslash piece (List.mem_of_mem_drop h)
    have hsome := foldlM_searchStep_ne_none (p := ⟨"/"⟩) (by decide) (by decide) hrest
    exact iff_of_false hsome fun h => by simp [habs] at h
  · next habs => rw [foldlM_searchStep_here hslash, and_iff_right (Bool.not_eq_true _ ▸ habs)]

end FilePath

namespace Disk

open FileTree

def IsFileBelow (d : Disk) (dir : FilePath) (place : Place) : Prop :=
  ∃ names content, names ≠ [] ∧ place = d.place dir ++ names ∧
    d.tree.at? place = some (.file content)

def IsDefinitionName (name : String) : Prop :=
  ∃ stem extension, extension ∈ ["json", "yml", "yaml"] ∧ name = stem ++ "." ++ extension

def IsDefinitionFile (d : Disk) (dir : FilePath) (place : Place) : Prop :=
  d.IsFileBelow dir place ∧ ∃ name ∈ place.getLast?, IsDefinitionName name

theorem isDefinitionName_iff {name : String} : IsDefinitionName name ↔
    ∃ after ∈ Text.afterLast? '.' name.toList,
      (Format.ofExtension? (String.ofList after)).isSome = true := by
  have hformat (extension : String) : (Format.ofExtension? extension).isSome = true ↔
      extension ∈ ["json", "yml", "yaml"] := by
    simp [Format.ofExtension?, Format.all, Format.extensions]
  simp only [hformat, Option.mem_def, Text.afterLast?_eq_some]
  constructor
  · rintro ⟨stem, extension, hmem, rfl⟩
    refine ⟨extension.toList, ⟨stem.toList, by simp, ?_⟩, by simpa using hmem⟩
    have hfree : ∀ e ∈ ["json", "yml", "yaml"], '.' ∉ e.toList := by decide
    exact hfree extension hmem
  · rintro ⟨after, ⟨before, hsplit, -⟩, hmem⟩
    refine ⟨String.ofList before, String.ofList after, hmem, ?_⟩
    rw [← String.toList_inj, hsplit]
    simp

section found

variable {d : Disk} {dir root : FilePath} (hd : d.IsWhole) (hdir : d.isDirectory dir = true)
  (hroot : dir.searchRoot? = some root)

include hd hdir

theorem isFileBelow_iff {names : Place} :
    d.IsFileBelow dir (d.place dir ++ names) ↔ names ∈ d.filesBelow dir := by
  rw [mem_filesBelow hd hdir]
  constructor
  · rintro ⟨other, content, hne, heq, hat⟩
    obtain rfl := List.append_cancel_left heq
    exact ⟨hne, content, hat⟩
  · rintro ⟨hne, content, hat⟩
    exact ⟨names, content, hne, rfl, hat⟩

theorem isEntryName_of_mem_filesBelow {names : Place} (h : names ∈ d.filesBelow dir) :
    names ≠ [] ∧ ∀ name ∈ names, IsEntryName name := by
  obtain ⟨hne, content, hat⟩ := (mem_filesBelow hd hdir).mp h
  exact ⟨hne, fun name hname => hd.tree.isEntryName hat name (List.mem_append_right _ hname)⟩

theorem isFileBelow_iff_exists {place : Place} : d.IsFileBelow dir place ↔
    ∃ names ∈ d.filesBelow dir, d.place dir ++ names = place := by
  constructor
  · intro h
    have ⟨names, _, _, hplace, _⟩ := h
    exact ⟨names, (isFileBelow_iff hd hdir).mp (hplace ▸ h), hplace.symm⟩
  · rintro ⟨names, h, rfl⟩
    exact (isFileBelow_iff hd hdir).mpr h

theorem isSome_ofFile?_below {names : Place} (h : names ∈ d.filesBelow dir) (root : FilePath) :
    (Format.ofFile? (root.below names)).isSome = true ↔
      d.IsDefinitionFile dir (d.place dir ++ names) := by
  obtain ⟨hne, hnames⟩ := isEntryName_of_mem_filesBelow hd hdir h
  obtain ⟨front, -, hbelow⟩ := FilePath.pieces_below root
  obtain ⟨hpieces, -⟩ := hbelow names hne hnames
  rw [IsDefinitionFile, and_iff_right ((isFileBelow_iff hd hdir).mpr h)]
  obtain ⟨init, last, rfl⟩ := (List.eq_nil_or_concat' names).resolve_left hne
  have hlast := hnames last (by simp)
  have hname : (root.below (init ++ [last])).name? = some last :=
    FilePath.name?_eq (hpieces.trans (List.append_assoc ..).symm) (isName_of_isEntryName hlast)
      hlast.not_dots
  rw [← List.append_assoc, List.getLast?_concat, Format.ofFile?, FilePath.extension?, hname]
  simp only [Option.mem_some_iff, exists_eq_left', isDefinitionName_iff]
  cases hafter : Text.afterLast? '.' last.toList <;> simp [hafter]

include hroot

theorem place_below {names : Place} (h : names ∈ d.filesBelow dir) :
    d.place (root.below names) = d.place dir ++ names := by
  obtain ⟨hne, hnames⟩ := isEntryName_of_mem_filesBelow hd hdir h
  obtain ⟨init, last, rfl⟩ := (List.eq_nil_or_concat' names).resolve_left hne
  have hnul := (hd.isDirectory_iff_at?.mp hdir).2.1
  rw [(names_below hroot hnul hnames).place_eq, List.append_assoc]

theorem found_filter (test : FilePath → Bool) :
    ((foundFiles dir (d.filesBelow dir)).filter test).Pairwise FilePath.Before ∧
      (((foundFiles dir (d.filesBelow dir)).filter test).map d.place).Nodup ∧
      ∀ place, place ∈ ((foundFiles dir (d.filesBelow dir)).filter test).map d.place ↔
        ∃ names ∈ d.filesBelow dir, test (root.below names) = true ∧
          d.place dir ++ names = place := by
  have hmem {names : Place} (h : names ∈ (d.filesBelow dir).mergeSort placeLe) :
      names ∈ d.filesBelow dir := List.mem_mergeSort.mp h
  have hnodup : ((d.filesBelow dir).mergeSort placeLe).Nodup :=
    (List.mergeSort_perm _ _).nodup_iff.mpr (nodup_filesBelow hd dir)
  have hplaces : ((foundFiles dir (d.filesBelow dir)).filter test).map d.place =
      (((d.filesBelow dir).mergeSort placeLe).filter (test ∘ root.below)).map
        (d.place dir ++ ·) := by
    rw [foundFiles, hroot, List.filter_map, List.map_map]
    exact List.map_congr_left fun names h =>
      place_below hd hdir hroot (hmem (List.mem_of_mem_filter h))
  refine ⟨?_, ?_, fun place => ?_⟩
  · rw [foundFiles, hroot]
    refine List.Pairwise.filter _ (List.pairwise_map.mpr ?_)
    refine ((List.pairwise_mergeSort placeLe_trans placeLe_total _).and hnodup).imp_of_mem ?_
    rintro xs ys hxs hys ⟨hle, hne⟩
    obtain ⟨hx, hxnames⟩ := isEntryName_of_mem_filesBelow hd hdir (hmem hxs)
    obtain ⟨hy, hynames⟩ := isEntryName_of_mem_filesBelow hd hdir (hmem hys)
    exact FilePath.before_below root hx hy hxnames hynames hle hne
  · rw [hplaces]
    exact (hnodup.filter _).map (List.append_right_injective _)
  · rw [hplaces, List.mem_map]
    simp only [List.mem_filter, List.mem_mergeSort, Function.comp_apply, and_assoc]

theorem mem_place_inputs {place : Place} :
    place ∈ ((foundFiles dir (d.filesBelow dir)).filter fun file =>
      (Format.ofFile? file).isSome).map d.place ↔ d.IsDefinitionFile dir place := by
  rw [(found_filter hd hdir hroot _).2.2]
  constructor
  · rintro ⟨names, h, hsome, rfl⟩
    exact (isSome_ofFile?_below hd hdir h root).mp hsome
  · intro hfile
    obtain ⟨names, h, rfl⟩ := (isFileBelow_iff_exists hd hdir).mp hfile.1
    exact ⟨names, h, (isSome_ofFile?_below hd hdir h root).mpr hfile, rfl⟩

theorem mem_place_ignored {place : Place} :
    place ∈ ((foundFiles dir (d.filesBelow dir)).filter fun file =>
      (Format.ofFile? file).isNone).map d.place ↔
        d.IsFileBelow dir place ∧ ¬d.IsDefinitionFile dir place := by
  have hformat {names : Place} (h : names ∈ d.filesBelow dir) :
      (Format.ofFile? (root.below names)).isNone = true ↔
        ¬d.IsDefinitionFile dir (d.place dir ++ names) := by
    rw [← isSome_ofFile?_below hd hdir h root, Option.isNone_iff_eq_none,
      Option.not_isSome_iff_eq_none]
  rw [(found_filter hd hdir hroot _).2.2, isFileBelow_iff_exists hd hdir]
  constructor
  · rintro ⟨names, h, hnone, rfl⟩
    exact ⟨⟨names, h, rfl⟩, (hformat h).mp hnone⟩
  · rintro ⟨⟨names, h, rfl⟩, hnot⟩
    exact ⟨names, h, (hformat h).mpr hnot, rfl⟩

end found

theorem log_selectInputs (dir : FilePath) (files : List FilePath) : (selectInputs dir files).log =
    (files.filter fun file => (Format.ofFile? file).isNone).map .fileIgnored := by
  rw [selectInputs, Outcome.log_bind]
  dsimp only [Outcome.result_report, Outcome.log_report]
  split <;> exact List.append_nil _

theorem discover_of_searchRoot?_eq_none {d : Disk} {dir : FilePath}
    (hdir : d.isDirectory dir = true) (h : dir.searchRoot? = none) :
    ((discover dir : Job Action _) d).1 = ⟨[], .error (.configuration (.noDefinitions dir))⟩ := by
  rw [discover_eq, if_pos hdir, foundFiles, h]
  rfl

/-- What a search for the definitions below a directory comes to. -/
structure Discovers (d : Disk) (dir : FilePath) (outcome : Outcome (List FilePath)) : Prop where
  found : (∃ inputs, outcome.result = .ok inputs) ↔ ∃ place, d.IsDefinitionFile dir place
  listed : ∀ inputs, outcome.result = .ok inputs →
    inputs.Pairwise FilePath.Before ∧ (inputs.map d.place).Nodup ∧
      ∀ place, place ∈ inputs.map d.place ↔ d.IsDefinitionFile dir place
  refused : ∀ fault, outcome.result = .error fault → fault = .configuration (.noDefinitions dir)
  reported : ∃ ignored : List FilePath, outcome.log = ignored.map .fileIgnored ∧
    (ignored.map d.place).Nodup ∧
    (∀ file, (Event.fileIgnored file).level = .warn ∧
      (Event.fileIgnored file).message = "ignoring file with unsupported extension") ∧
    ∀ place, place ∈ ignored.map d.place ↔
      d.IsFileBelow dir place ∧ ¬d.IsDefinitionFile dir place

section discover

variable {d : Disk} {dir : FilePath} (hd : d.IsWhole) (hdir : d.isDirectory dir = true)

include hdir

theorem discover_eq_selectInputs : ((discover dir : Job Action _) d).1 =
    selectInputs dir (foundFiles dir (d.filesBelow dir)) := by
  rw [discover_eq, if_pos hdir]

include hd

theorem discovers (hsearch : dir.searchRoot? ≠ none) :
    d.Discovers dir ((discover dir : Job Action _) d).1 := by
  obtain ⟨root, hroot⟩ := Option.ne_none_iff_exists'.mp hsearch
  refine ⟨⟨?_, ?_⟩, fun inputs hinputs => ?_, fun fault hfault => ?_, ?_⟩
  · rintro ⟨inputs, hinputs⟩
    obtain ⟨-, hne, rfl⟩ := discover_eq_ok_iff.mp hinputs
    obtain ⟨file, hfile⟩ := List.exists_mem_of_ne_nil _ hne
    exact ⟨d.place file, (mem_place_inputs hd hdir hroot).mp (List.mem_map_of_mem hfile)⟩
  · rintro ⟨place, hplace⟩
    have hmem := (mem_place_inputs hd hdir hroot).mpr hplace
    refine ⟨_, discover_eq_ok_iff.mpr ⟨hdir, fun hnil => ?_, rfl⟩⟩
    rw [hnil] at hmem
    cases hmem
  · obtain ⟨-, -, rfl⟩ := discover_eq_ok_iff.mp hinputs
    obtain ⟨hsorted, hnodup, -⟩ := found_filter hd hdir hroot fun file =>
      (Format.ofFile? file).isSome
    exact ⟨hsorted, hnodup, fun place => mem_place_inputs hd hdir hroot⟩
  · rw [discover_eq_selectInputs hdir, result_selectInputs] at hfault
    split at hfault
    · exact (Except.error.inj hfault).symm
    · cases hfault
  · rw [discover_eq_selectInputs hdir, log_selectInputs]
    exact ⟨_, rfl, (found_filter hd hdir hroot _).2.1, fun _ => ⟨rfl, rfl⟩,
      fun place => mem_place_ignored hd hdir hroot⟩

theorem discover_congr {d' : Disk} (hd' : d'.IsWhole) (hdir' : d'.isDirectory dir = true)
    (hsame : ∀ names, d'.IsFileBelow dir (d'.place dir ++ names) ↔
      d.IsFileBelow dir (d.place dir ++ names)) :
    ((discover dir : Job Action _) d').1 = ((discover dir : Job Action _) d).1 := by
  have hmem (names : Place) : names ∈ d'.filesBelow dir ↔ names ∈ d.filesBelow dir := by
    rw [← isFileBelow_iff hd' hdir', ← isFileBelow_iff hd hdir, hsame]
  have hwalk := filter_mergeSort_congr (nodup_filesBelow hd' dir) (nodup_filesBelow hd dir)
    fun names (_ : true = true) => hmem names
  rw [List.filter_true, List.filter_true] at hwalk
  rw [discover_eq_selectInputs hdir, discover_eq_selectInputs hdir', foundFiles, foundFiles, hwalk]

end discover

/-- The definition files below a directory are discovered. A path to something else is refused
without a word. In a directory that a search starts from, which `FilePath.searchRoot?_eq_none_iff`
tells, there is a result if and only if there is a definition file, and it lists the definition
files, each once and nothing else, in the order of their paths; a word is said about every other
file, each once, with or without a result. All of it depends on the places of the files alone. -/
theorem discovers_definition_files (d : Disk) (dir : FilePath) (hd : d.IsWhole) :
    (d.isDirectory dir = false → ((discover dir : Job Action _) d).1 =
      ⟨[], .error (.configuration (.missingDirectory dir))⟩) ∧
    (d.isDirectory dir = true → dir.searchRoot? ≠ none →
      d.Discovers dir ((discover dir : Job Action _) d).1 ∧
      ∀ d' : Disk, d'.IsWhole → d'.isDirectory dir = true →
        (∀ names, d'.IsFileBelow dir (d'.place dir ++ names) ↔
          d.IsFileBelow dir (d.place dir ++ names)) →
        ((discover dir : Job Action _) d').1 = ((discover dir : Job Action _) d).1) := by
  refine ⟨fun hdir => ?_, fun hdir hsearch =>
    ⟨discovers hd hdir hsearch, fun d' hd' hdir' => discover_congr hd hdir hd' hdir'⟩⟩
  rw [discover_eq, if_neg (by simp [hdir])]
  rfl

/-- Definitions with a plain name and with no name but an extension, in a directory beside one that
only looks like a definition, and another file. -/
def definitionDisk : Disk where
  home := ""
  tree := .directory [("vss", .directory [
    ("a-b.yaml", .file "".toUTF8),
    ("notes.json.txt", .file "".toUTF8),
    ("x.yml", .directory []),
    ("a", .directory [(".json", .file "".toUTF8)])])]
  limits := Limits.none

theorem isWhole_definitionDisk : definitionDisk.IsWhole where
  home := rfl
  unbounded := rfl
  tree := by
    simp only [definitionDisk, WellFormed, EachWellFormed, and_true]
    decide +kernel
  root := ⟨_, rfl⟩
  current := by
    rintro _ ⟨⟩

theorem discovers_definition_files_sample :
    definitionDisk.isDirectory ⟨"vss"⟩ = true ∧ (⟨"vss"⟩ : FilePath).searchRoot? ≠ none ∧
    ∃ inputs, ((discover ⟨"vss"⟩ : Job Action _) definitionDisk).1.result = .ok inputs ∧
      inputs.Pairwise FilePath.Before ∧
      ∀ place, place ∈ inputs.map definitionDisk.place ↔
        definitionDisk.IsDefinitionFile ⟨"vss"⟩ place := by
  have hdir : definitionDisk.isDirectory ⟨"vss"⟩ = true := by decide +kernel
  have hsearch : (⟨"vss"⟩ : FilePath).searchRoot? ≠ none := by decide +kernel
  obtain ⟨hdiscovers, -⟩ :=
    (discovers_definition_files definitionDisk ⟨"vss"⟩ isWhole_definitionDisk).2 hdir hsearch
  have hfile : definitionDisk.tree.at? ["vss", "a", ".json"] = some (.file "".toUTF8) := rfl
  have hbelow : definitionDisk.IsFileBelow ⟨"vss"⟩ ["vss", "a", ".json"] :=
    ⟨["a", ".json"], _, by simp, by decide +kernel, hfile⟩
  obtain ⟨inputs, hinputs⟩ :=
    hdiscovers.found.mpr ⟨_, hbelow, ".json", rfl, "", "json", by simp, rfl⟩
  obtain ⟨hsorted, -, hmem⟩ := hdiscovers.listed inputs hinputs
  exact ⟨hdir, hsearch, inputs, hinputs, hsorted, hmem⟩

end Disk

end SignalTree
