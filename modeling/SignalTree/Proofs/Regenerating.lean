import SignalTree.Proofs.Generating
import SignalTree.Proofs.Searching

/-!
Generation over its own output. A run takes the whole place of its module, so a definition file
is lost exactly if it lies there. As long as none does, a second run finds the same files and
changes nothing (`generate_again`).
-/
namespace SignalTree

open FileTree Disk

theorem exists_stem_of_renderModule {units : List TypeUnit} {module : String}
    {files : List SourceFile} (h : (Source.renderModule units module).result = .ok files) :
    ∀ f ∈ files, ∃ stem, f.name = stem ++ ".rs" := by
  obtain ⟨rfl, -, -⟩ := Source.renderModule_eq_ok h
  intro f hf
  rcases List.mem_append.mp hf with hf | hf
  · obtain ⟨u, -, rfl⟩ := List.mem_map.mp hf
    exact ⟨_, rfl⟩
  · rw [List.mem_singleton.mp hf]
    exact ⟨"mod", rfl⟩

theorem at?_fileEntries {files : List SourceFile} {place : Place} {content : ByteArray}
    (h : (FileTree.directory (fileEntries files)).at? place = some (.file content)) :
    ∃ f ∈ files, place = [f.name] := by
  cases place with
  | nil => cases h
  | cons name rest =>
    obtain ⟨s, hs, hrest⟩ := Option.bind_eq_some_iff.mp h
    obtain ⟨f, hf, heq⟩ := List.mem_map.mp (mem_of_lookup hs)
    obtain ⟨rfl, rfl⟩ := Prod.mk.inj heq
    cases rest with
    | nil => exact ⟨f, hf, rfl⟩
    | cons head rest => cases hrest

namespace Disk.Names

variable {d : Disk} {file : FilePath} {parent : Place} {last : String}
  (h : d.Names file parent last) (hd : d.IsWhole)

include h hd

theorem readBytes_eq_ok_iff {content : ByteArray} : d.readBytes file = .ok content ↔
    d.tree.at? (parent ++ [last]) = some (.file content) := by
  rw [readBytes, Except.bind_eq_ok, ← h.find_eq_ok_iff hd]
  constructor
  · rintro ⟨s, hs, hcontent⟩
    cases s with
    | directory es => cases hcontent
    | file bytes =>
      cases hcontent
      exact hs
  · exact fun hs => ⟨_, hs, rfl⟩

end Disk.Names

theorem Renders.discovered {d : Disk} {settings : Settings} {model : Model} {files : List SourceFile}
    (h : Renders d settings model files) :
    ((discover settings.inputDir : Job Action _) d).1.result = .ok model.inputs := by
  obtain ⟨inputs, nodes, hinputs, -, hmodel⟩ := buildModel_eq_ok_iff.mp h.built
  rw [inputs_of_modelOf hmodel, hinputs]

/-- What a run installed on a disk, and the tree that it found or made for it. -/
structure Installed (d : Disk) (settings : Settings) (dir : Place) (model : Model)
    (files : List SourceFile) (u : FileTree) : Prop where
  whole : d.IsWhole
  destination : Destination d settings.moduleDir dir settings.module
  renders : Renders d settings model files
  made : Made dir d.tree u
  nul : '\x00' ∉ settings.moduleDir.text.toList

namespace Installed

variable {d : Disk} {settings : Settings} {dir : Place} {model : Model} {files : List SourceFile}
  {u : FileTree} (h : Installed d settings dir model files u)

abbrev after (settings : Settings) (dir : Place) (files : List SourceFile) (u : FileTree) :
    FileTree :=
  installedTree u (dir ++ [settings.module]) files

include h

theorem whole_after : IsWhole { d with tree := after settings dir files u } := by
  refine h.whole.with_tree ?_ ?_
  · exact h.made.wellFormed.erase.put h.destination.isEntryName
      (areEntries_of_renderModule h.renders.rendered).wellFormed
  · exact exists_put_eq (exists_erase_eq h.made.root _ _) _ _ _

/-- Files outside of the module stay as they are, and none is new there. -/
theorem at?_file_iff {place : Place} (hplace : ¬dir ++ [settings.module] <+: place)
    {content : ByteArray} : (after settings dir files u).at? place = some (.file content) ↔
      d.tree.at? place = some (.file content) := by
  rw [← h.made.at?_file_iff, ← kindAt?_eq_file, ← kindAt?_eq_file,
    kindAt?_installedTree h.made.there files hplace]

theorem at?_directory {place : Place} (hplace : ¬dir ++ [settings.module] <+: place)
    (hold : ∃ es, d.tree.at? place = some (.directory es)) :
    ∃ es, (after settings dir files u).at? place = some (.directory es) := by
  have hmade := h.made.at?_directory hold
  rwa [← kindAt?_eq_directory, ← kindAt?_installedTree h.made.there files hplace,
    kindAt?_eq_directory] at hmade

theorem not_prefix_of_format {file : FilePath} {parent : Place} {last : String}
    (hnames : d.Names file parent last) (hformat : (Format.ofFile? file).isSome = true)
    {content : ByteArray}
    (hfile : (after settings dir files u).at? (parent ++ [last]) = some (.file content)) :
    ¬dir ++ [settings.module] <+: parent ++ [last] := by
  rintro ⟨rest, hrest⟩
  rw [← hrest, at?_append, at?_installedTree h.made.there, Option.bind_some] at hfile
  obtain ⟨f, hf, rfl⟩ := at?_fileEntries hfile
  obtain ⟨stem, hstem⟩ := exists_stem_of_renderModule h.renders.rendered f hf
  obtain ⟨-, hlast⟩ := List.append_inj' hrest rfl
  obtain rfl : f.name = last := by simpa using hlast
  obtain ⟨front, hpieces, -⟩ := hnames.pieces
  rw [Format.ofFile?_sourceFile (hstem ▸ hpieces) (hstem ▸ hnames.isEntryName)] at hformat
  cases hformat

/-! The inputs of a run. -/

theorem readBytes_iff {file : FilePath} (hfile : file ∈ model.inputs) :
    (∃ content, d.readBytes file = .ok content) ∧
      (readBytes { d with tree := after settings dir files u } file = d.readBytes file ↔
        ¬dir ++ [settings.module] <+: d.place file) := by
  obtain ⟨hformat, parent, last, content, hnames, -, hat⟩ :=
    exists_of_mem_discover h.whole h.renders.discovered hfile
  have hread := (hnames.readBytes_eq_ok_iff h.whole).mpr hat
  refine ⟨⟨content, hread⟩, ?_⟩
  rw [hread, (hnames.with_tree _).readBytes_eq_ok_iff h.whole_after, hnames.place_eq]
  constructor
  · exact h.not_prefix_of_format hnames hformat
  · exact fun hplace => (h.at?_file_iff hplace).mpr hat

/-! A second run. -/

theorem destination_after :
    Destination { d with tree := after settings dir files u } settings.moduleDir dir settings.module where
  isEntryName := h.destination.isEntryName
  visible := h.destination.visible
  pieces := h.destination.pieces
  dots := h.destination.dots
  start := by
    have hstart := h.destination.start
    refine h.at?_directory (fun hinside => ?_) hstart
    obtain ⟨front, -, hdir⟩ := h.destination.pieces
    have hlength : _ ≤ (d.start settings.moduleDir).length := hinside.length_le
    rw [← hdir] at hlength
    simp only [List.length_append, List.length_singleton] at hlength
    omega

section Apart

variable (hapart : ∀ file ∈ model.inputs, ¬dir ++ [settings.module] <+: d.place file)

include hapart

theorem discover_after : ((discover settings.inputDir : Job Action _)
    { d with tree := after settings dir files u }).1.result = .ok model.inputs := by
  have hinputs := h.renders.discovered
  obtain ⟨hdir, hne, -⟩ := discover_eq_ok_iff.mp hinputs
  obtain ⟨htext, hnul, hthere⟩ := h.whole.isDirectory_iff_at?.mp hdir
  obtain ⟨file, hfile⟩ := List.exists_mem_of_ne_nil _ hne
  obtain ⟨-, parent, last, content, hnames, hbelow, -⟩ :=
    exists_of_mem_discover h.whole hinputs hfile
  have hinputDir : ¬dir ++ [settings.module] <+: d.place settings.inputDir := fun hinside =>
    hapart file hfile (hnames.place_eq ▸ (hinside.trans hbelow).trans (List.prefix_append _ _))
  have hdirAfter := h.whole_after.isDirectory_iff_at?.mpr
    ⟨htext, hnul, h.at?_directory hinputDir hthere⟩
  refine discover_of_kept h.whole hinputs h.whole_after hdirAfter (fun file hfile => ?_)
    fun file parent last content hformat hnames hat => ?_
  · obtain ⟨-, parent, last, content, hnames, -, hat⟩ :=
      exists_of_mem_discover h.whole hinputs hfile
    rw [← hnames.place_eq] at hat
    exact ⟨content, (h.at?_file_iff (hapart file hfile)).mpr hat⟩
  · have hplace := h.not_prefix_of_format hnames hformat hat
    exact ⟨content, (h.at?_file_iff hplace).mp hat⟩

theorem renders_after :
    Renders { d with tree := after settings dir files u } settings model files := by
  obtain ⟨inputs, nodes, -, hnodes, hmodel⟩ := buildModel_eq_ok_iff.mp h.renders.built
  obtain rfl := inputs_of_modelOf hmodel
  refine ⟨buildModel_eq_ok_iff.mpr ⟨model.inputs, nodes, h.discover_after hapart, ?_, hmodel⟩,
    h.renders.rendered⟩
  rw [← hnodes]
  refine congrArg _ (fst_readNodes_congr fun file hfile => ?_).symm
  rw [Disk.readText, Disk.readText, (h.readBytes_iff hfile).2.mpr (hapart file hfile)]

end Apart

theorem installedTree_after : installedTree (after settings dir files u) (dir ++ [settings.module])
    files = after settings dir files u := by
  obtain ⟨es, hdir⟩ := h.made.there
  have herased : (u.erase (dir ++ [settings.module])).at? dir =
      some (.directory (eraseEntry settings.module es)) := at?_erase_parent hdir
  rw [after, installedTree, installedTree, h.made.wellFormed.erase.erase_put herased
    not_mem_eraseEntry]

theorem isDirectory_after :
    Disk.isDirectory { d with tree := after settings dir files u } settings.moduleDir = true := by
  have hnames := h.destination_after.names h.nul
  rw [h.whole_after.isDirectory_iff_at?, hnames.place_eq]
  exact ⟨hnames.text_ne, h.nul, _, at?_installedTree h.made.there files⟩

/-- A second run reports the same and leaves everything as it is exactly if all inputs lie outside
of the module. -/
theorem again_iff : (∃ log, (generate settings : Job Action Report)
      { d with tree := after settings dir files u } =
        (⟨log, .ok (reportOf settings model files)⟩, { d with tree := after settings dir files u })) ↔
    ∀ file ∈ model.inputs, ¬dir ++ [settings.module] <+: d.place file := by
  have hcases := generate_cases h.whole_after h.destination_after
  constructor
  · rintro ⟨log, hrun⟩ file hfile
    rw [hrun] at hcases
    rcases hcases with ⟨_, _, herror, -⟩ | ⟨_, model', files', _, hrenders, -, -, hok⟩
    · cases herror
    · have hreport : reportOf settings model files = reportOf settings model' files' := by
        injection hok with houtcome
        injection houtcome with _ hresult
        exact Except.ok.inj hresult
      have hinputs : model.inputs = model'.inputs := congrArg Report.inputs hreport
      obtain ⟨hformat, parent, last, content, hnames, -, hat⟩ :=
        exists_of_mem_discover h.whole_after hrenders.discovered (hinputs ▸ hfile)
      have hnames' := hnames.with_tree d.tree
      rw [hnames'.place_eq]
      exact h.not_prefix_of_format hnames' hformat hat
  · intro hapart
    obtain ⟨log, hrun⟩ := generate_of_renders h.whole_after h.destination_after
      (h.renders_after hapart) h.isDirectory_after
    exact ⟨log, by rw [hrun, h.installedTree_after]⟩

theorem not_renders_after (hinput : dir ++ [settings.module] <+: d.place settings.inputDir)
    {model' : Model} {files' : List SourceFile} :
    ¬Renders { d with tree := after settings dir files u } settings model' files' := by
  intro hrenders
  obtain ⟨-, hne, -⟩ := discover_eq_ok_iff.mp hrenders.discovered
  obtain ⟨file, hfile⟩ := List.exists_mem_of_ne_nil _ hne
  obtain ⟨hformat, parent, last, content, hnames, hbelow, hat⟩ :=
    exists_of_mem_discover h.whole_after hrenders.discovered hfile
  exact h.not_prefix_of_format (hnames.with_tree d.tree) hformat hat
    ((hinput.trans hbelow).trans (List.prefix_append _ _))

end Installed

/-- Generation keeps the inputs that lie outside of the module and no others, and a second run
comes to the same report and leaves everything as it is exactly if all inputs lie there. -/
theorem generate_again {d d' : Disk} {file overrides : Preferences} {settings : Settings}
    {log : List Event} {report : Report} (hd : d.IsFileSystem)
    (hsettings : Settings.resolve file overrides = .ok settings)
    (hdots : ".." ∉ settings.outputDir.pieces)
    (h : (generate settings : Job Action Report) d = (⟨log, .ok report⟩, d')) :
    (∀ input ∈ report.inputs, (∃ content, d.readBytes input = .ok content) ∧
      (d'.readBytes input = d.readBytes input ↔
        ¬d.place settings.moduleDir <+: d.place input)) ∧
    ((∃ log', (generate settings : Job Action Report) d' = (⟨log', .ok report⟩, d')) ↔
      ∀ input ∈ report.inputs, ¬d.place settings.moduleDir <+: d.place input) := by
  have hdest := destination hd hsettings hdots
  rw [hdest.place_eq]
  rcases generate_cases hd.toIsWhole hdest with
    ⟨_, e, hrun, -⟩ | ⟨_, model, files, u, hrenders, hmade, hnul, hrun⟩
  · cases hrun.symm.trans h
  · cases hrun.symm.trans h
    have hinstalled : Installed d settings _ model files u :=
      ⟨hd.toIsWhole, hdest, hrenders, hmade, hnul⟩
    exact ⟨fun input hinput => hinstalled.readBytes_iff hinput, hinstalled.again_iff⟩

theorem generate_again_sampleDisk : ∃ log report d',
    (generate .default : Job Action Report) sampleDisk = (⟨log, .ok report⟩, d') ∧
    report.inputs = [⟨"vss/signals.json"⟩] ∧
    d'.readBytes ⟨"vss/signals.json"⟩ = sampleDisk.readBytes ⟨"vss/signals.json"⟩ ∧
    ∃ log', (generate .default : Job Action Report) d' = (⟨log', .ok report⟩, d') := by
  have hsettings : Settings.resolve .empty .empty = .ok .default := rfl
  have hdots : ".." ∉ Settings.default.outputDir.pieces := by decide +kernel
  obtain ⟨model, files, hrenders, hinputs, -⟩ := renders_sampleDisk
  obtain ⟨log, hrun⟩ := generate_of_renders isFileSystem_sampleDisk.toIsWhole
    (destination isFileSystem_sampleDisk hsettings hdots) hrenders (by decide +kernel)
  obtain ⟨hkept, hagain⟩ := generate_again isFileSystem_sampleDisk hsettings hdots hrun
  have hreport : (reportOf .default model files).inputs = [⟨"vss/signals.json"⟩] := hinputs
  have hapart : ¬sampleDisk.place Settings.default.moduleDir <+:
      sampleDisk.place ⟨"vss/signals.json"⟩ := by
    decide +kernel
  rw [hreport] at hkept hagain
  refine ⟨log, _, _, hrun, hreport, ?_, hagain.mpr ?_⟩
  · exact (hkept _ (List.mem_singleton_self _)).2.mpr hapart
  · simpa using hapart

def nestedDisk : Disk where
  home := ""
  tree := .directory [("out", .directory [
    ("vss", .directory [("signals.json", .file sampleText.toUTF8)])])]
  limits := Limits.none

def nestedSettings : Settings := ⟨⟨"out/vss"⟩, ⟨"out"⟩, "vss"⟩

theorem isFileSystem_nestedDisk : nestedDisk.IsFileSystem where
  home := rfl
  unbounded := rfl
  tree := by
    simp only [nestedDisk, WellFormed, EachWellFormed, and_true]
    decide +kernel
  root := ⟨_, rfl⟩
  current := by
    rintro _ ⟨⟩
  workingDirectory := ⟨_, rfl⟩

/-- A run that ends well can remove the definitions that it was made from, and then no other run
ends well. -/
theorem generate_nestedDisk : nestedDisk.IsFileSystem ∧
    Settings.resolve .empty ⟨some ⟨"out/vss"⟩, some ⟨"out"⟩, some "vss"⟩ = .ok nestedSettings ∧
    (".." ∉ nestedSettings.inputDir.pieces ∧ ".." ∉ nestedSettings.outputDir.pieces) ∧
    ∃ log report d', (generate nestedSettings : Job Action Report) nestedDisk =
        (⟨log, .ok report⟩, d') ∧
      (∃ input ∈ report.inputs, ∃ content, nestedDisk.readBytes input = .ok content ∧
        d'.readBytes input ≠ .ok content) ∧
      ∃ log' e, (generate nestedSettings : Job Action Report) d' = (⟨log', .error e⟩, d') := by
  have hsettings : Settings.resolve .empty ⟨some ⟨"out/vss"⟩, some ⟨"out"⟩, some "vss"⟩ =
      .ok nestedSettings := by
    decide +kernel
  have hdots : ".." ∉ nestedSettings.outputDir.pieces := by decide +kernel
  refine ⟨isFileSystem_nestedDisk, hsettings, ⟨by decide +kernel, hdots⟩, ?_⟩
  have hdest := destination isFileSystem_nestedDisk hsettings hdots
  obtain ⟨model, files, hrenders, hinputs, -⟩ := exists_renders_of_sampleText nestedDisk
    nestedSettings ⟨"out/vss/signals.json"⟩ rfl (by decide +kernel) (by decide +kernel)
    (by decide +kernel) (by decide +kernel)
  have hdir : nestedDisk.place nestedSettings.outputDir = ["out"] := by decide +kernel
  have hwhole := isFileSystem_nestedDisk.toIsWhole
  have hmade : Made (nestedDisk.place nestedSettings.outputDir) nestedDisk.tree nestedDisk.tree :=
    .refl hwhole.tree hwhole.root ⟨_, by rw [hdir]; rfl⟩
  have hinstalled : Installed nestedDisk nestedSettings _ model files nestedDisk.tree :=
    ⟨hwhole, hdest, hrenders, hmade, by decide +kernel⟩
  obtain ⟨log, hrun⟩ := generate_of_renders hwhole hdest hrenders (by decide +kernel)
  refine ⟨log, _, _, hrun, ⟨⟨"out/vss/signals.json"⟩, ?_, ?_⟩, ?_⟩
  · change _ ∈ model.inputs
    rw [hinputs]
    exact List.mem_singleton_self _
  · obtain ⟨⟨content, hcontent⟩, hkept⟩ :=
      hinstalled.readBytes_iff (hinputs ▸ List.mem_singleton_self _)
    exact ⟨content, hcontent, fun h => hkept.mp (h.trans hcontent.symm) (by decide +kernel)⟩
  · rcases generate_cases hinstalled.whole_after hinstalled.destination_after with
      ⟨log', e, herror, -⟩ | ⟨_, model', files', _, hrenders', -⟩
    · exact ⟨log', e, herror⟩
    · exact absurd hrenders' (hinstalled.not_renders_after (by decide +kernel))

end SignalTree
