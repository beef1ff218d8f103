import Mathlib.Data.List.Perm.Subperm
import SignalTree.Proofs.DiskJobs
import SignalTree.Proofs.MissingParents

/-!
Putting a module in its place. The files are written to a directory of a name that nothing
else has, so whatever fails, taking that directory away restores the tree, and what succeeds
differs from the old tree in the module and in new parents alone (`Destination.install`).
-/
namespace SignalTree

namespace Disk

open FileTree

/-! The name of the staging directory. -/

theorem exists_stagingName_eq (es : List (String × FileTree)) :
    ∃ n, stagingName es = stagingPrefix ++ String.ofList (List.replicate n '*') := by
  rw [stagingName]
  cases hf : ((List.range (es.length + 1)).map fun n =>
      stagingPrefix ++ String.ofList (List.replicate (n + 1) '*')).find?
      fun name => (es.lookup name).isNone with
  | none => exact ⟨0, by simp⟩
  | some name =>
    obtain ⟨n, -, rfl⟩ := List.mem_map.mp (List.mem_of_find?_eq_some hf)
    exact ⟨n + 1, by simp⟩

theorem lookup_stagingName (es : List (String × FileTree)) : es.lookup (stagingName es) = none := by
  let names := (List.range (es.length + 1)).map fun n =>
    stagingPrefix ++ String.ofList (List.replicate (n + 1) '*')
  have hsome : (names.find? fun name => (es.lookup name).isNone).isSome = true := by
    rw [List.find?_isSome]
    by_contra hnone
    have hsub : names ⊆ es.map Prod.fst := by
      intro name hname
      by_contra hnot
      exact hnone ⟨name, hname, by rw [lookup_eq_none_iff_not_mem.mpr hnot]; rfl⟩
    have hnodup : names.Nodup := by
      refine List.nodup_range.map fun m n heq => ?_
      have hlist := congrArg (fun s => s.toList.length) heq
      simpa using hlist
    have hle := (List.subperm_of_subset hnodup hsub).length_le
    simp only [names, List.length_map, List.length_range] at hle
    omega
  obtain ⟨name, hname⟩ := Option.isSome_iff_exists.mp hsome
  have hstaging : stagingName es = name := by
    rw [stagingName]
    exact congrArg (Option.getD · stagingPrefix) hname
  rw [hstaging]
  simpa using List.find?_some hname

theorem mem_stagingName {es : List (String × FileTree)} {c : Char}
    (h : c ∈ (stagingName es).toList) : c ∈ stagingPrefix.toList ∨ c = '*' := by
  obtain ⟨n, hn⟩ := exists_stagingName_eq es
  rw [hn, String.toList_append, String.toList_ofList] at h
  exact (List.mem_append.mp h).imp_right List.eq_of_mem_replicate

theorem head?_stagingName (es : List (String × FileTree)) :
    (stagingName es).toList.head? = some '.' := by
  obtain ⟨n, hn⟩ := exists_stagingName_eq es
  rw [hn, String.toList_append]
  rfl

theorem isEntryName_stagingName (es : List (String × FileTree)) : IsEntryName (stagingName es) := by
  obtain ⟨n, hn⟩ := exists_stagingName_eq es
  have hne (text : String) (h : text.length < stagingPrefix.length) : stagingName es ≠ text := by
    rintro heq
    rw [← heq, hn, String.length_append] at h
    omega
  refine ⟨hne _ (by decide), hne _ (by decide), hne _ (by decide), fun h => ?_, fun h => ?_⟩
  · rcases mem_stagingName h with h | h
    · revert h; decide
    · cases h
  · rcases mem_stagingName h with h | h
    · revert h; decide
    · cases h

variable {d : Disk} {p : FilePath}

/-! Paths of entries. -/

theorem nul_not_mem_iff : '\x00' ∉ p.text.toList ↔
    ∀ name ∈ placeOf p.pieces, '\x00' ∉ name.toList := by
  constructor
  · exact fun h name hname => FilePath.not_mem_piece (by decide) h (List.mem_of_mem_filter hname)
  · intro h hmem
    have hne : '\x00' ≠ '/' := by decide
    obtain ⟨cs, hcs, hnul⟩ := (Text.mem_pieces_iff hne _).mpr hmem
    have hpiece : String.ofList cs ∈ p.pieces := List.mem_map_of_mem hcs
    have hname : isName (String.ofList cs) = true := by
      rw [isName_iff]
      constructor
      · intro heq
        rw [← String.toList_inj, String.toList_ofList] at heq
        simp [heq] at hnul
      · intro heq
        rw [← String.toList_inj, String.toList_ofList] at heq
        rw [heq] at hnul
        revert hnul
        decide
    exact h _ (List.mem_filter.mpr ⟨hpiece, hname⟩) (by simpa using hnul)

theorem start_join {name : String} (hname : IsEntryName name) : d.start (p.join name) = d.start p := by
  obtain ⟨front, -, -, habs⟩ := FilePath.pieces_join p hname.slash
  rw [start, start, habs]

theorem names_join {name : String} (hname : IsEntryName name) (hnul : '\x00' ∉ p.text.toList) :
    d.Names (p.join name) (d.place p) name := by
  obtain ⟨front, hpieces, hplace, habs⟩ := FilePath.pieces_join p hname.slash
  refine ⟨hname, ⟨front, hpieces, ?_⟩, ?_⟩
  · rw [place, start_join hname, hplace]
  · rw [nul_not_mem_iff, hpieces, placeOf_concat (isName_of_isEntryName hname), hplace]
    intro n hn
    rcases List.mem_append.mp hn with hn | hn
    · exact nul_not_mem_iff.mp hnul n hn
    · rw [List.mem_singleton.mp hn]
      exact hname.nul

theorem place_rooted (hd : d.IsWhole) : d.place (d.rooted p) = d.place p := by
  rw [rooted, hd.isRooted_eq]
  split
  · rfl
  · next habs =>
    have hslash : ∀ piece ∈ "" :: d.current.place, '/' ∉ piece.toList := by
      refine List.forall_mem_cons.mpr ⟨by decide, fun name h => (hd.current name h).slash⟩
    have hpieces : (FilePath.mk ("/".intercalate (d.home :: d.current.place) ++ "/" ++ p.text)).pieces =
        "" :: (d.current.place ++ p.pieces) := by
      rw [FilePath.pieces_append, hd.home, FilePath.pieces_mk (List.cons_ne_nil _ _) hslash]
      rfl
    have hrooted := FilePath.isAbsolute_iff.mpr ⟨_, by simp [p.pieces_ne_nil], hpieces⟩
    rw [place, place, start, start, if_pos hrooted, if_neg habs, hpieces, placeOf_cons,
      if_neg (by decide), placeOf_append,
      placeOf_of_names fun name h => isName_of_isEntryName (hd.current name h), List.nil_append]

theorem nul_not_mem_rooted (hd : d.IsWhole) (h : '\x00' ∉ p.text.toList) :
    '\x00' ∉ (d.rooted p).text.toList := by
  rw [nul_not_mem_iff]
  intro name hname
  have hmem : name ∈ d.place (d.rooted p) := List.mem_append_right _ hname
  rw [place_rooted hd] at hmem
  rcases List.mem_append.mp hmem with hmem | hmem
  · rw [start] at hmem
    split at hmem
    · cases hmem
    · exact (hd.current name hmem).nul
  · exact nul_not_mem_iff.mp h name hmem

theorem createStaging_spec (hd : d.IsWhole) {es : List (String × FileTree)} (htext : p.text ≠ "")
    (hnul : '\x00' ∉ p.text.toList) (hdir : d.tree.at? (d.place p) = some (.directory es)) :
    ∃ staging, d.Names staging (d.place p) (stagingName es) ∧ createStaging p d = (.ok staging,
      { d with tree := d.tree.put (d.place p ++ [stagingName es]) (.directory []) }) := by
  have hnames := names_join (d := d) (isEntryName_stagingName es) (nul_not_mem_rooted hd hnul)
  rw [place_rooted hd] at hnames
  refine ⟨_, hnames, ?_⟩
  have hlisting : d.listing p = .ok es := by
    rw [listing, hd.find_of_directory htext hnul hdir]
    rfl
  rw [createStaging, hlisting]
  simp only [hnames.createDirectory_of_free hd hdir (lookup_stagingName es)]

end Disk

open FileTree Disk

def fileEntries (files : List SourceFile) : List (String × FileTree) :=
  files.map fun f => (f.name, .file f.contents.toUTF8)

/-- The tree that installing files leaves, from the one with the parents of the module. -/
def installedTree (u : FileTree) (place : Place) (files : List SourceFile) : FileTree :=
  (u.erase place).put place (.directory (fileEntries files))

structure AreEntries (files : List SourceFile) : Prop where
  nodup : (files.map SourceFile.name).Nodup
  names : ∀ f ∈ files, IsEntryName f.name

variable {d : Disk} {files : List SourceFile}

theorem map_fst_fileEntries : (fileEntries files).map Prod.fst = files.map SourceFile.name := by
  rw [fileEntries, List.map_map]
  rfl

theorem AreEntries.wellFormed (h : AreEntries files) :
    (FileTree.directory (fileEntries files)).WellFormed := by
  refine wellFormed_directory.mpr ⟨map_fst_fileEntries ▸ h.nodup, fun e he => ?_⟩
  obtain ⟨f, hf, rfl⟩ := List.mem_map.mp he
  exact ⟨h.names f hf, trivial⟩

/-- The disk with a staging directory beside the module, and what was written to it so far. -/
structure Staged (base : Disk) (t : FileTree) (dir : Place) (staging : FilePath) (name : String)
    (written : List (String × FileTree)) (d : Disk) : Prop where
  whole : d.IsWhole
  disk : d = { base with tree := t.put (dir ++ [name]) (.directory written) }
  wellFormed : t.WellFormed
  names : d.Names staging dir name
  parent : ∃ es, t.at? dir = some (.directory es) ∧ name ∉ es.map Prod.fst

theorem Staged.new (hd : d.IsWhole) {dir : Place} {u : FileTree} (hmade : Made dir d.tree u)
    {es : List (String × FileTree)} (hdir : u.at? dir = some (.directory es)) {staging : FilePath}
    (hnames : d.Names staging dir (stagingName es)) : Staged d u dir staging (stagingName es) []
      { d with tree := u.put (dir ++ [stagingName es]) (.directory []) } where
  whole := hd.with_tree (hmade.wellFormed.put (isEntryName_stagingName es)
    (wellFormed_directory.mpr ⟨List.nodup_nil, by simp⟩)) (exists_put_eq hmade.root _ _ _)
  disk := rfl
  wellFormed := hmade.wellFormed
  names := hnames.with_tree _
  parent := ⟨es, hdir, lookup_eq_none_iff_not_mem.mp (lookup_stagingName es)⟩

namespace Staged

variable {base : Disk} {t : FileTree} {dir : Place} {staging : FilePath} {name : String}
  {written : List (String × FileTree)} (h : Staged base t dir staging name written d)

include h

theorem tree : d.tree = t.put (dir ++ [name]) (.directory written) := by
  rw [h.disk]

theorem with_tree (u : FileTree) : { d with tree := u } = { base with tree := u } := by
  rw [h.disk]

theorem at?_staging : d.tree.at? (dir ++ [name]) = some (.directory written) := by
  obtain ⟨es, hdir, -⟩ := h.parent
  rw [h.tree, at?_put hdir]

theorem write {file : String} (hfile : IsEntryName file) (hnew : file ∉ written.map Prod.fst)
    (text : String) : ∃ d', writeBytes (staging.join file) text.toUTF8 d = (.ok ⟨⟩, d') ∧
      Staged base t dir staging name (written ++ [(file, .file text.toUTF8)]) d' := by
  obtain ⟨es, hdir, hname⟩ := h.parent
  have hpath := names_join (d := d) hfile h.names.nul
  rw [h.names.place_eq] at hpath
  have hfree : written.lookup file = none := lookup_eq_none_iff_not_mem.mpr hnew
  refine ⟨_, hpath.writeBytes_of_no_directory h.whole h.at?_staging (by simp [hfree]) _, ?_⟩
  refine ⟨h.whole.with_tree ?_ (exists_put_eq h.whole.root _ _ _), ?_, h.wellFormed,
    h.names.with_tree _, h.parent⟩
  · exact h.whole.tree.put hfile trivial
  · rw [h.with_tree, h.tree, h.wellFormed.put_put hdir hname, setEntry_of_not_mem hnew]

theorem writeFiles (hfiles : ∀ f ∈ files, IsEntryName f.name)
    (hnodup : (written.map Prod.fst ++ files.map SourceFile.name).Nodup) :
    ∃ d', (writeFiles staging files : Job Action PUnit) d = (⟨[], .ok ⟨⟩⟩, d') ∧
      Staged base t dir staging name (written ++ fileEntries files) d' := by
  induction files generalizing d written with
  | nil => exact ⟨d, rfl, by rwa [fileEntries, List.map_nil, List.append_nil]⟩
  | cons f files ih =>
    obtain ⟨hf, hfiles⟩ := List.forall_mem_cons.mp hfiles
    have hnew : f.name ∉ written.map Prod.fst := fun hmem =>
      (List.nodup_append'.mp hnodup).2.2 hmem (by simp)
    obtain ⟨d₁, hwrite, hstaged⟩ := h.write hf hnew f.contents
    obtain ⟨d₂, hrest, hstaged⟩ := ih hstaged hfiles (by simpa using hnodup)
    refine ⟨d₂, ?_, by simpa [fileEntries] using hstaged⟩
    exact (Job.bind_of_silent (Job.attempt_of_ok hwrite) _).trans hrest

theorem removeTree : removeTree staging d = (.ok ⟨⟩, { base with tree := t }) := by
  obtain ⟨es, hdir, hname⟩ := h.parent
  rw [h.names.removeTree_of_directory h.whole h.at?_staging, h.with_tree, h.tree,
    h.wellFormed.erase_put hdir hname]

theorem rename_of_free {dest : FilePath} {module : String} (hdest : d.Names dest dir module)
    (hne : name ≠ module) {d' : Disk} {t' : FileTree} (hd' : d' = { d with tree := t' })
    (hwhole : d'.IsWhole) (hdir : ∃ es, t'.at? dir = some (.directory es) ∧ es.lookup module = none)
    (hmoved : t'.at? (dir ++ [name]) = some (.directory written))
    (herase : t'.erase (dir ++ [name]) = t.erase (dir ++ [module])) :
    rename staging dest d' = (.ok ⟨⟩, { base with
      tree := (t.erase (dir ++ [module])).put (dir ++ [module]) (.directory written) }) := by
  subst hd'
  obtain ⟨es, hdir, hfree⟩ := hdir
  rw [(hdest.with_tree t').rename_of_free hwhole (h.names.with_tree t') hne hmoved hdir hfree,
    herase]
  exact congrArg _ (h.with_tree _)

theorem replaceDirectory {dest : FilePath} {module : String} (hdest : d.Names dest dir module)
    (hne : name ≠ module) :
    ((∃ content, t.at? (dir ++ [module]) = some (.file content)) ∧
      ∃ e, (replaceDirectory staging dest : Job Action PUnit) d = (⟨[], .error e⟩, d)) ∨
    (replaceDirectory staging dest : Job Action PUnit) d = (⟨[], .ok ⟨⟩⟩, { base with
      tree := (t.erase (dir ++ [module])).put (dir ++ [module]) (.directory written) }) := by
  obtain ⟨es, hdir, hname⟩ := h.parent
  have hold : d.tree.at? (dir ++ [module]) = t.at? (dir ++ [module]) := by
    rw [h.tree, at?_put_sibling hdir hne.symm]
  have hparent : d.tree.at? dir = some (.directory (setEntry name (.directory written) es)) := by
    rw [h.tree, at?_put_parent hdir]
  have hexists : (Job.lift (Files.pathExists dest) : Job Action Bool) d =
      (⟨[], .ok (d.find dest).isOk⟩, d) := Job.lift_eq rfl
  rw [SignalTree.replaceDirectory, Job.bind_of_silent hexists]
  cases hfind : d.find dest with
  | error e =>
    have hnone : es.lookup module = none := by
      cases hl : es.lookup module with
      | none => rfl
      | some s =>
        have hs := at?_concat.mpr ⟨es, hdir, hl⟩
        rw [← hold, ← hdest.find_eq_ok_iff h.whole, hfind] at hs
        cases hs
    refine .inr (Job.attempt_of_ok
      (h.rename_of_free hdest hne rfl h.whole ⟨_, hparent, ?_⟩ h.at?_staging ?_))
    · rw [lookup_setEntry, if_neg hne.symm, hnone]
    · rw [h.tree, h.wellFormed.erase_put hdir hname,
        h.wellFormed.erase_eq_self hdir (lookup_eq_none_iff_not_mem.mp hnone)]
  | ok s =>
    have hs := hold.symm.trans ((hdest.find_eq_ok_iff h.whole).mp hfind)
    cases s with
    | file content =>
      refine .inl ⟨⟨content, hs⟩, _, Job.bind_of_error (Job.attempt_of_error
        (hdest.removeTree_of_file h.whole (hold.trans hs))) _⟩
    | directory inner =>
      refine .inr ((Job.bind_of_silent (Job.attempt_of_ok
        (hdest.removeTree_of_directory h.whole (hold.trans hs))) _).trans
        (Job.attempt_of_ok (h.rename_of_free hdest hne rfl ?_
          ⟨_, at?_erase_parent hparent, ?_⟩ ?_ ?_)))
      · exact h.whole.with_tree h.whole.tree.erase (exists_erase_eq h.whole.root _ _)
      · rw [lookup_eraseEntry, if_pos rfl]
      · rw [at?_erase_sibling hparent hne, h.at?_staging]
      · rw [erase_erase_comm, h.tree, h.wellFormed.erase_put hdir hname]

end Staged

theorem Staged.fillAndReplace {base : Disk} {t : FileTree} {dir : Place} {staging dest : FilePath}
    {name module : String} (h : Staged base t dir staging name [] d) (hfiles : AreEntries files)
    (hdest : base.Names dest dir module) (hne : name ≠ module) :
    ((∃ content, t.at? (dir ++ [module]) = some (.file content)) ∧
      ∃ e, (fillAndReplace staging dest files : Job Action PUnit) d =
        (⟨[], .error e⟩, { base with tree := t })) ∨
    (fillAndReplace staging dest files : Job Action PUnit) d =
      (⟨[], .ok ⟨⟩⟩, { base with tree := installedTree t (dir ++ [module]) files }) := by
  obtain ⟨d', hwrite, hstaged⟩ := h.writeFiles hfiles.names (by simpa using hfiles.nodup)
  have hdest' : d'.Names dest dir module := by
    rw [hstaged.disk]
    exact hdest.with_tree _
  have hrun := Job.bind_of_silent hwrite fun _ => SignalTree.replaceDirectory staging dest
  rcases hstaged.replaceDirectory hdest' hne with ⟨hfile, e, he⟩ | hok
  · refine .inl ⟨hfile, e, (Job.onFault_of_error (hrun.trans he)).trans ?_⟩
    have hclean : ((do let _ ← Files.removeTree staging; pure ⟨⟩ : Action PUnit) d').2 =
        { base with tree := t } := congrArg Prod.snd hstaged.removeTree
    rw [hclean]
  · exact .inr (Job.onFault_of_ok (hrun.trans hok))

/-! Installing a module. -/

theorem parentDirectory_spec {dest : FilePath} {front : List String} {module : String}
    (hpieces : dest.pieces = front ++ [module]) (hmodule : isName module = true) :
    (parentDirectory dest).IsPlain ∧ (parentDirectory dest).text ≠ "" ∧
      (parentDirectory dest).isAbsolute = dest.isAbsolute ∧
      placeOf (parentDirectory dest).pieces = placeOf front := by
  obtain ⟨parent, hparent, hplain, habs, hplace, -⟩ := FilePath.parent?_spec hpieces hmodule
  rw [parentDirectory, hparent]
  by_cases htext : parent.text = ""
  · obtain ⟨text⟩ := parent
    obtain rfl : text = "" := htext
    exact ⟨.inr (.inl rfl), by decide, habs, hplace⟩
  · simp only [beq_iff_eq, htext, if_false]
    exact ⟨hplain, htext, habs, hplace⟩

/-- A path whose last step can be the name of a module, and the place of its directory. -/
structure Destination (d : Disk) (dest : FilePath) (dir : Place) (module : String) : Prop where
  isEntryName : IsEntryName module
  visible : module.toList.head? ≠ some '.'
  pieces : ∃ front, dest.pieces = front ++ [module] ∧ d.start dest ++ placeOf front = dir
  dots : ".." ∉ dest.pieces
  start : d.HasStart dest

namespace Destination

variable {dest : FilePath} {dir : Place} {module : String} (h : Destination d dest dir module)

include h

theorem place_eq : d.place dest = dir ++ [module] := by
  obtain ⟨front, hpieces, rfl⟩ := h.pieces
  rw [place, hpieces, placeOf_concat (isName_of_isEntryName h.isEntryName), List.append_assoc]

theorem parent : (parentDirectory dest).IsPlain ∧ (parentDirectory dest).text ≠ "" ∧
    d.HasStart (parentDirectory dest) ∧ ".." ∉ (parentDirectory dest).pieces ∧
    d.place (parentDirectory dest) = dir := by
  obtain ⟨front, hpieces, hdir⟩ := h.pieces
  obtain ⟨hplain, htext, habs, hplace⟩ :=
    parentDirectory_spec hpieces (isName_of_isEntryName h.isEntryName)
  have hstart : d.start (parentDirectory dest) = d.start dest := by rw [Disk.start, Disk.start, habs]
  refine ⟨hplain, htext, ?_, ?_, by rw [place, hstart, hplace, hdir]⟩
  · rw [HasStart, hstart]
    exact h.start
  · rw [← dots_mem_placeOf, hplace, dots_mem_placeOf]
    exact fun hmem => h.dots (hpieces ▸ List.mem_append_left _ hmem)

theorem nul_iff : '\x00' ∉ dest.text.toList ↔ '\x00' ∉ (parentDirectory dest).text.toList := by
  obtain ⟨front, hpieces, hdir⟩ := h.pieces
  have hname := isName_of_isEntryName h.isEntryName
  obtain ⟨-, -, -, hplace⟩ := parentDirectory_spec hpieces hname
  rw [nul_not_mem_iff, nul_not_mem_iff, hplace, hpieces, placeOf_concat hname, List.forall_mem_append,
    List.forall_mem_singleton, and_iff_left h.isEntryName.nul]

theorem names (hnul : '\x00' ∉ dest.text.toList) : d.Names dest dir module :=
  ⟨h.isEntryName, h.pieces, hnul⟩

theorem isDirectory_eq_false (hd : d.IsWhole)
    (hparent : d.isDirectory (parentDirectory dest) = false) : d.isDirectory dest = false := by
  rw [Bool.eq_false_iff] at hparent ⊢
  intro hdirectory
  obtain ⟨-, hnul, es, hthere⟩ := hd.isDirectory_iff_at?.mp hdirectory
  rw [h.place_eq] at hthere
  obtain ⟨es, hdir, -⟩ := at?_concat.mp hthere
  obtain ⟨-, htext, -, -, hplace⟩ := h.parent
  exact hparent (hd.isDirectory_iff_at?.mpr ⟨htext, h.nul_iff.mp hnul, es, hplace ▸ hdir⟩)

/-- Either nothing changes, and then no directory stood in the place of the module, or the module
is there and parents of it may be new. -/
theorem install (hd : d.IsWhole) (hfiles : AreEntries files) :
    (∃ e, (install dest files : Job Action PUnit) d = (⟨[], .error e⟩, d) ∧
      d.isDirectory dest = false) ∨
    ∃ u, Made dir d.tree u ∧ '\x00' ∉ dest.text.toList ∧
      (install dest files : Job Action PUnit) d = (⟨[], .ok ⟨⟩⟩,
        { d with tree := installedTree u (dir ++ [module]) files }) := by
  obtain ⟨hplain, htext, hstart, hdots, hplace⟩ := h.parent
  rcases createDirectories_spec hd hstart hplain hdots with ⟨e, he, hdirectory⟩ | ⟨u, hu, hmade, hnul⟩
  · exact .inl ⟨_, Job.bind_of_error (Job.attempt_of_error he) _, h.isDirectory_eq_false hd hdirectory⟩
  have hnames := h.names (h.nul_iff.mpr hnul)
  rw [hplace] at hmade
  obtain ⟨es, hdir⟩ := hmade.there
  obtain ⟨staging, hstaging, hcreate⟩ := createStaging_spec (hd.with_made hmade) htext hnul
    (show u.at? (d.place (parentDirectory dest)) = _ from hplace ▸ hdir)
  rw [show place { d with tree := u } (parentDirectory dest) = dir from hplace] at hstaging hcreate
  have hstaged := Staged.new hd hmade hdir (hstaging.with_tree d.tree)
  have hne : stagingName es ≠ module := fun heq => h.visible (heq ▸ head?_stagingName es)
  have hrun : (SignalTree.install dest files : Job Action PUnit) d =
      (fillAndReplace staging dest files : Job Action PUnit)
        { d with tree := u.put (dir ++ [stagingName es]) (.directory []) } :=
    (Job.bind_of_silent (Job.attempt_of_ok hu) _).trans
      (Job.bind_of_silent (Job.attempt_of_ok hcreate) _)
  rcases hstaged.fillAndReplace hfiles hnames hne with ⟨⟨content, hfile⟩, e, he⟩ | hok
  · have hold := hmade.at?_file_iff.mp hfile
    obtain rfl := hmade.eq_of_at?_concat hold
    refine .inl ⟨e, hrun.trans he, ?_⟩
    simp [Disk.isDirectory, (hnames.find_eq_ok_iff hd).mpr hold, FileTree.isDirectory]
  · exact .inr ⟨u, hmade, hnames.nul, hrun.trans hok⟩

end Destination

end SignalTree
