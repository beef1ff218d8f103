import SignalTree.Proofs.Installing
import SignalTree.Proofs.ModuleTree
import SignalTree.Proofs.ReadOnly

/-!
Generation is all or nothing. A run that ends with a fault leaves the disk as it was, and one
that ends well has a directory with exactly the rendered files and has changed nothing outside
of it but for parents that were missing (`generate_atomic`).
-/
namespace SignalTree

open FileTree Disk

/-! Names of generated files and modules. -/

theorem isEntryName_of_isName {name : String} (h : IsName name) (hne : name ≠ "") :
    IsEntryName name where
  nonempty := hne
  not_dot := by
    rintro rfl
    exact absurd (h '.' (by decide)) (by decide)
  not_dots := by
    rintro rfl
    exact absurd (h '.' (by decide)) (by decide)
  slash := h.not_mem (by decide)
  nul := h.not_mem (by decide)

theorem isEntryName_sourceFile {stem : String} (h : IsName stem) : IsEntryName (stem ++ ".rs") := by
  have hne (text : String) (hlength : text.length < 3) : stem ++ ".rs" ≠ text := by
    rintro heq
    rw [← heq, String.length_append] at hlength
    change stem.length + 3 < 3 at hlength
    omega
  have hnot (c : Char) (hstem : c ∉ stem.toList) (hc : c ∉ ".rs".toList) :
      c ∉ (stem ++ ".rs").toList := by
    rw [String.toList_append, List.mem_append, not_or]
    exact ⟨hstem, hc⟩
  exact ⟨hne _ (by decide), hne _ (by decide), hne _ (by decide),
    hnot _ (h.not_mem (by decide)) (by decide), hnot _ (h.not_mem (by decide)) (by decide)⟩

namespace Settings

theorem isModuleName_of_resolve {file overrides : Preferences} {settings : Settings}
    (h : resolve file overrides = .ok settings) : isModuleName settings.module = true := by
  rw [resolve] at h
  dsimp only at h
  split at h
  · next hname => exact Except.ok.inj h ▸ hname
  · cases h

variable {module : String} (h : isModuleName module = true)

include h

theorem head?_ne_of_isModuleName : module.toList.head? ≠ some '.' ∧ module ≠ "" := by
  unfold isModuleName at h
  split at h
  · cases h
  · next c rest hm =>
    rw [hm]
    refine ⟨?_, fun hempty => by simp [hempty] at hm⟩
    rintro ⟨⟩
    exact absurd ((Bool.and_eq_true _ _).mp h).1 (by decide)

theorem isEntryName_of_isModuleName : IsEntryName module :=
  isEntryName_of_isName (isName_of_isModuleName h) (head?_ne_of_isModuleName h).2

end Settings

theorem areEntries_of_renderModule {units : List TypeUnit} {module : String}
    {files : List SourceFile} (h : (Source.renderModule units module).result = .ok files) :
    AreEntries files := by
  obtain ⟨rfl, -, hnodup⟩ := Source.renderModule_eq_ok h
  refine ⟨hnodup, fun f hf => ?_⟩
  rcases List.mem_append.mp hf with hf | hf
  · obtain ⟨u, -, rfl⟩ := List.mem_map.mp hf
    exact isEntryName_sourceFile (isName_moduleName u.decl.name)
  · rw [List.mem_singleton.mp hf]
    exact isEntryName_sourceFile (show IsName "mod" by decide)

/-! What stands where after files are installed. -/

theorem at?_installedTree {u : FileTree} {dir : Place} {module : String}
    (h : ∃ es, u.at? dir = some (.directory es)) (files : List SourceFile) :
    (installedTree u (dir ++ [module]) files).at? (dir ++ [module]) =
      some (.directory (fileEntries files)) := by
  obtain ⟨es, hdir⟩ := h
  exact at?_put (at?_erase_parent hdir)

theorem kindAt?_installedTree {u : FileTree} {dir : Place} {module : String}
    (h : ∃ es, u.at? dir = some (.directory es)) (files : List SourceFile) {q : Place}
    (hq : ¬dir ++ [module] <+: q) :
    (installedTree u (dir ++ [module]) files).kindAt? q = u.kindAt? q := by
  obtain ⟨es, hdir⟩ := h
  rw [installedTree, kindAt?_put (at?_erase_parent hdir) hq, kindAt?_erase hdir hq]

namespace Disk

structure IsFileSystem (d : Disk) : Prop extends d.IsWhole where
  workingDirectory : ∃ es, d.tree.at? d.current.place = some (.directory es)

theorem IsFileSystem.hasStart {d : Disk} (hd : d.IsFileSystem) (p : FilePath) : d.HasStart p := by
  rw [HasStart, start]
  split
  · obtain ⟨es, hes⟩ := hd.root
    exact ⟨es, by rw [at?_nil, hes]⟩
  · exact hd.workingDirectory

end Disk

/-- What a disk has for a run: a model, and the files that it is rendered to. -/
structure Renders (d : Disk) (settings : Settings) (model : Model) (files : List SourceFile) :
    Prop where
  built : ((buildModel settings.inputDir : Job Action Model) d).1.result = .ok model
  rendered : (Source.renderModule model.units settings.module).result = .ok files

theorem Renders.unique {d : Disk} {settings : Settings} {model model' : Model}
    {files files' : List SourceFile} (h : Renders d settings model files)
    (h' : Renders d settings model' files') : model = model' ∧ files = files' := by
  obtain rfl := Except.ok.inj (h.built.symm.trans h'.built)
  exact ⟨rfl, Except.ok.inj (h.rendered.symm.trans h'.rendered)⟩

def reportOf (settings : Settings) (model : Model) (files : List SourceFile) : Report where
  inputs := model.inputs
  nodes := model.registry.nodes.length
  units := model.units.length
  moduleDir := settings.moduleDir
  files := files.map SourceFile.name

section Generate

variable {d : Disk} {file overrides : Preferences} {settings : Settings}

theorem destination (hd : d.IsFileSystem)
    (hsettings : Settings.resolve file overrides = .ok settings)
    (hdots : ".." ∉ settings.outputDir.pieces) :
    Destination d settings.moduleDir (d.place settings.outputDir) settings.module := by
  have hmodule := Settings.isModuleName_of_resolve hsettings
  have hname := Settings.isEntryName_of_isModuleName hmodule
  obtain ⟨front, hpieces, hplace, habs⟩ := FilePath.pieces_join settings.outputDir hname.slash
  refine ⟨hname, (Settings.head?_ne_of_isModuleName hmodule).1, ⟨front, hpieces, ?_⟩, ?_,
    hd.hasStart _⟩
  · rw [Settings.moduleDir, start_join hname, hplace]
    rfl
  · rw [Settings.moduleDir, hpieces, List.mem_append, List.mem_singleton, not_or,
      ← dots_mem_placeOf, hplace, dots_mem_placeOf]
    exact ⟨hdots, hname.not_dots.symm⟩

/-- A run that fails leaves the disk as it was, and it can only fail without files to install or
without a directory in the place of the module. -/
theorem generate_cases (hd : d.IsWhole) {dir : Place}
    (hdest : Destination d settings.moduleDir dir settings.module) :
    (∃ log e, (generate settings : Job Action Report) d = (⟨log, .error e⟩, d) ∧
      ∀ model files, Renders d settings model files → d.isDirectory settings.moduleDir = false) ∨
    ∃ log model files u, Renders d settings model files ∧ Made dir d.tree u ∧
      '\x00' ∉ settings.moduleDir.text.toList ∧
      (generate settings : Job Action Report) d = (⟨log, .ok (reportOf settings model files)⟩,
        { d with tree := installedTree u (dir ++ [settings.module]) files }) := by
  have hbuilt := (isReadOnly_buildModel settings.inputDir).eq d
  rcases hmodel : ((buildModel settings.inputDir : Job Action Model) d).1 with ⟨log, e | model⟩
  · rw [hmodel] at hbuilt
    refine .inl ⟨log, e, Job.bind_of_error hbuilt _, fun model files h => ?_⟩
    cases h.built.symm.trans (congrArg Outcome.result hmodel)
  rw [hmodel] at hbuilt
  rcases hrender : Source.renderModule model.units settings.module with ⟨rlog, e | files⟩
  · refine .inl ⟨log ++ rlog, e, (Job.bind_of_ok hbuilt _).trans ?_, fun model' files h => ?_⟩
    · rw [Job.bind_of_error (show (liftM (Source.renderModule model.units settings.module) :
        Job Action _) d = (⟨rlog, .error e⟩, d) from congrArg (·, d) hrender)]
    · have hmodel' := h.built.symm.trans (congrArg Outcome.result hmodel)
      cases hmodel'
      cases h.rendered.symm.trans (congrArg Outcome.result hrender)
  have hrenders : Renders d settings model files :=
    ⟨congrArg Outcome.result hmodel, congrArg Outcome.result hrender⟩
  have hrender' : (liftM (Source.renderModule model.units settings.module) :
      Job Action (List SourceFile)) d = (⟨rlog, .ok files⟩, d) := congrArg (·, d) hrender
  rcases hdest.install hd (areEntries_of_renderModule hrenders.rendered) with
    ⟨e, he, hdirectory⟩ | ⟨u, hmade, hnul, hok⟩
  · refine .inl ⟨log ++ (rlog ++ []), e, (Job.bind_of_ok hbuilt _).trans ?_,
      fun _ _ _ => hdirectory⟩
    rw [Job.bind_of_ok hrender', Job.bind_of_error he]
  · refine .inr ⟨log ++ (rlog ++ [.modelWritten model.units.length settings.moduleDir]),
      model, files, u, hrenders, hmade, hnul, (Job.bind_of_ok hbuilt _).trans ?_⟩
    rw [Job.bind_of_ok hrender', Job.bind_of_silent hok]
    rfl

theorem generate_of_renders (hd : d.IsWhole) {dir : Place}
    (hdest : Destination d settings.moduleDir dir settings.module) {model : Model}
    {files : List SourceFile} (h : Renders d settings model files)
    (hdirectory : d.isDirectory settings.moduleDir = true) :
    ∃ log, (generate settings : Job Action Report) d = (⟨log, .ok (reportOf settings model files)⟩,
      { d with tree := installedTree d.tree (dir ++ [settings.module]) files }) := by
  rcases generate_cases hd hdest with
    ⟨log, e, -, hnone⟩ | ⟨log, model', files', u, hrenders, hmade, -, hrun⟩
  · rw [hnone model files h] at hdirectory
    cases hdirectory
  · obtain ⟨rfl, rfl⟩ := h.unique hrenders
    obtain ⟨-, -, es, hthere⟩ := hd.isDirectory_iff_at?.mp hdirectory
    rw [hdest.place_eq] at hthere
    obtain rfl := hmade.eq_of_at?_concat hthere
    exact ⟨log, hrun⟩

/-- Generation is all or nothing. What a path leads to has a kind: the bytes of a file, or that
it is a directory. -/
theorem generate_atomic {d' : Disk} {outcome : Outcome Report} (hd : d.IsFileSystem)
    (hsettings : Settings.resolve file overrides = .ok settings)
    (hdots : ".." ∉ settings.outputDir.pieces)
    (h : (generate settings : Job Action Report) d = (outcome, d')) :
    (∀ e, outcome.result = .error e → d' = d) ∧
    (∀ report, outcome.result = .ok report → d' = { d with tree := d'.tree } ∧
      (∃ model files, Renders d settings model files ∧ report = reportOf settings model files ∧
        d'.tree.at? (d.place settings.moduleDir) = some (.directory (fileEntries files))) ∧
      ∀ q, ¬d.place settings.moduleDir <+: q → d'.tree.kindAt? q = d.tree.kindAt? q ∨
        d.tree.kindAt? q = none ∧ q <+: d.place settings.moduleDir ∧
          d'.tree.kindAt? q = some .directory) := by
  have hdest := destination hd hsettings hdots
  rw [hdest.place_eq]
  rcases generate_cases hd.toIsWhole hdest with
    ⟨log, e, hrun, -⟩ | ⟨log, model, files, u, hrenders, hmade, -, hrun⟩
  · obtain ⟨rfl, rfl⟩ := Prod.mk.inj (hrun.symm.trans h)
    exact ⟨fun _ _ => rfl, nofun⟩
  · obtain ⟨rfl, rfl⟩ := Prod.mk.inj (hrun.symm.trans h)
    refine ⟨nofun, fun report hok => ⟨rfl, ?_, fun q hq => ?_⟩⟩
    · exact ⟨model, files, hrenders, (Except.ok.inj hok).symm, at?_installedTree hmade.there files⟩
    · rw [kindAt?_installedTree hmade.there files hq]
      exact (hmade.frame q).imp_right fun ⟨hnone, hprefix, hnew⟩ =>
        ⟨hnone, hprefix.trans (List.prefix_append _ _), hnew⟩

end Generate

theorem exists_renders {d : Disk} {settings : Settings} {inputs : List FilePath} {nodes : List Node}
    {test : List SourceFile → Bool}
    (hinputs : ((discover settings.inputDir : Job Action _) d).1.result = .ok inputs)
    (hnodes : ((readNodes inputs : Job Action _) d).1.result = .ok nodes)
    (h : (Registry.register nodes).result.toOption.any (fun r => !r.nodes.isEmpty &&
      r.units.result.toOption.any fun units =>
        (Source.renderModule units settings.module).result.toOption.any test) = true) :
    ∃ model files, Renders d settings model files ∧ model.inputs = inputs ∧ test files = true := by
  cases hregistry : (Registry.register nodes).result with
  | error e => simp [hregistry, Except.toOption] at h
  | ok r =>
    simp only [hregistry, Except.toOption, Option.any_some, Bool.and_eq_true] at h
    obtain ⟨hnonempty, h⟩ := h
    cases hunits : r.units.result with
    | error e => simp [hunits] at h
    | ok units =>
      rw [hunits] at h
      cases hfiles : (Source.renderModule units settings.module).result with
      | error e => simp [hfiles] at h
      | ok files =>
        refine ⟨⟨inputs, r, units⟩, files, ⟨?_, hfiles⟩, rfl, by simpa [hfiles] using h⟩
        exact buildModel_eq_ok_iff.mpr ⟨inputs, nodes, hinputs, hnodes,
          modelOf_eq_ok hregistry (by simpa using hnonempty) hunits⟩

def sampleText : String := "\x7b\"Vehicle\": \x7b\"type\": \"branch\"\x7d\x7d"

def sampleDisk : Disk where
  home := ""
  tree := .directory [
    ("vss", .directory [("signals.json", .file sampleText.toUTF8)]),
    ("generated", .directory [("vss", .directory [("old.rs", .file "".toUTF8)])])]
  limits := Limits.none

theorem isFileSystem_sampleDisk : sampleDisk.IsFileSystem where
  home := rfl
  unbounded := rfl
  tree := by
    simp only [sampleDisk, WellFormed, EachWellFormed, and_true]
    decide +kernel
  root := ⟨_, rfl⟩
  current := by
    rintro _ ⟨⟩
  workingDirectory := ⟨_, rfl⟩

def sampleRecords : List Record := [⟨.ofText "Vehicle", "", "branch", "", "", "", "", "", ""⟩]

theorem register_sampleRecords :
    (Registry.register (sampleRecords.map Record.resolve)).result.toOption.any (fun r =>
      !r.nodes.isEmpty && r.units.result.toOption.any fun units =>
        (Source.renderModule units "vss").result.toOption.any fun files =>
          files.map SourceFile.name == ["vss_vehicle.rs", "mod.rs"]) = true := by
  decide +kernel

theorem exists_renders_of_sampleText (d : Disk) (settings : Settings) (file : FilePath)
    (hmodule : settings.module = "vss") (hdirectory : d.isDirectory settings.inputDir = true)
    (hfound : foundFiles settings.inputDir (d.filesBelow settings.inputDir) = [file])
    (hformat : Format.ofFile? file = some .json)
    (htext : (d.readText file).toOption = some sampleText) :
    ∃ model files, Renders d settings model files ∧ model.inputs = [file] ∧
      files.map SourceFile.name = ["vss_vehicle.rs", "mod.rs"] := by
  have hdocument : Json.read? sampleText =
      some (.object [("Vehicle", .object [("type", .string "branch")])]) := by
    cbv
  have hread : Format.json.read sampleText = .ok sampleRecords := by
    change Definition.Nested.read Attribute.all sampleText = _
    rw [Definition.Nested.read, hdocument]
    rfl
  have hrecords : recordsOf file (d.readText file) = .ok sampleRecords := by
    rw [recordsOf, hformat]
    cases hsource : d.readText file with
    | error e => simp [hsource, Except.toOption] at htext
    | ok source =>
      rw [hsource] at htext
      cases htext
      simp only [Except.mapError, bind, Except.bind, hread]
  have hinputs : ((discover settings.inputDir : Job Action _) d).1.result = .ok [file] := by
    rw [discover_eq, if_pos hdirectory, hfound, result_selectInputs]
    simp [hformat]
  have hnodes : ((readNodes [file] : Job Action _) d).1.result =
      .ok (sampleRecords.map Record.resolve ++ []) := by
    rw [fst_readNodes_cons, Outcome.result_bind, hrecords]
    rfl
  obtain ⟨model, files, hrenders, hmodel, hnames⟩ :=
    exists_renders hinputs hnodes (hmodule ▸ register_sampleRecords)
  exact ⟨model, files, hrenders, hmodel, by simpa using hnames⟩

theorem renders_sampleDisk : ∃ model files, Renders sampleDisk .default model files ∧
    model.inputs = [⟨"vss/signals.json"⟩] ∧
    files.map SourceFile.name = ["vss_vehicle.rs", "mod.rs"] :=
  exists_renders_of_sampleText _ _ _ rfl (by decide +kernel) (by decide +kernel) (by decide +kernel)
    (by decide +kernel)

theorem generate_sampleDisk : ∃ log report d',
    (generate .default : Job Action Report) sampleDisk = (⟨log, .ok report⟩, d') ∧
    report.inputs = [⟨"vss/signals.json"⟩] ∧ report.files = ["vss_vehicle.rs", "mod.rs"] ∧
    (∃ files, files.map SourceFile.name = report.files ∧
      d'.tree.at? ["generated", "vss"] = some (.directory (fileEntries files))) ∧
    d'.tree.kindAt? ["vss", "signals.json"] = some (.file sampleText.toUTF8) := by
  have hsettings : Settings.resolve .empty .empty = .ok .default := rfl
  have hdots : ".." ∉ Settings.default.outputDir.pieces := by decide +kernel
  have hplace : sampleDisk.place Settings.default.moduleDir = ["generated", "vss"] := by
    decide +kernel
  obtain ⟨model, files, hrenders, hinputs, hnames⟩ := renders_sampleDisk
  obtain ⟨log, hrun⟩ := generate_of_renders isFileSystem_sampleDisk.toIsWhole
    (destination isFileSystem_sampleDisk hsettings hdots) hrenders (by decide +kernel)
  obtain ⟨-, ⟨model', files', hrenders', hreport, hthere⟩, hframe⟩ :=
    (generate_atomic isFileSystem_sampleDisk hsettings hdots hrun).2 _ rfl
  obtain ⟨rfl, rfl⟩ := hrenders.unique hrenders'
  refine ⟨log, _, _, hrun, hinputs, hnames, ⟨files, rfl, hplace ▸ hthere⟩, ?_⟩
  rcases hframe ["vss", "signals.json"] (by rw [hplace]; decide) with hkept | ⟨hnone, -⟩
  · rw [hkept]
    rfl
  · cases hnone

end SignalTree
