import Mathlib.Data.String.Basic
import SignalTree.Proofs.Installing
import SignalTree.Proofs.ReadOnly

/-!
What a search for definition files finds. A found path leads to where the search found it
(`names_below`), and two searches that find the same definition files list them in the same
order (`filter_mergeSort_congr`).
-/
namespace SignalTree

namespace FileTree

/-! The contents of a tree. -/

mutual

theorem mem_contents : ∀ {t : FileTree}, t.WellFormed → ∀ {place : Place} {s : FileTree},
    (place, s) ∈ t.contents ↔ place ≠ [] ∧ t.at? place = some s
  | file content, _, place, s => by
    cases place <;> simp [contents]
  | directory es, h, place, s => by
    rw [contents]
    exact mem_contentsOf (wellFormed_directory.mp h).1 (wellFormed_directory.mp h).2

theorem mem_contentsOf : ∀ {es : List (String × FileTree)}, (es.map Prod.fst).Nodup →
    (∀ e ∈ es, IsEntryName e.1 ∧ e.2.WellFormed) → ∀ {place : Place} {s : FileTree},
    (place, s) ∈ contentsOf es ↔ place ≠ [] ∧ (directory es).at? place = some s
  | [], _, _, place, s => by
    cases place <;> simp [contentsOf]
  | (name, t) :: rest, hnodup, hes, place, s => by
    obtain ⟨hnew, hnodup⟩ := List.nodup_cons.mp hnodup
    obtain ⟨⟨-, ht⟩, hes⟩ := List.forall_mem_cons.mp hes
    rw [contentsOf, List.mem_append, List.mem_cons, List.mem_map, mem_contentsOf hnodup hes]
    cases place with
    | nil => simp
    | cons n q =>
      have hinside : (∃ e ∈ t.contents, (name :: e.1, e.2) = (n :: q, s)) ↔
          name = n ∧ q ≠ [] ∧ t.at? q = some s := by
        rw [← mem_contents ht]
        constructor
        · rintro ⟨⟨q', s'⟩, he, heq⟩
          cases heq
          exact ⟨rfl, he⟩
        · rintro ⟨rfl, he⟩
          exact ⟨_, he, rfl⟩
      rw [hinside, at?_directory_cons, at?_directory_cons, List.lookup_cons]
      by_cases hn : n = name
      · subst hn
        have hnone : rest.lookup n = none := lookup_eq_none_iff_not_mem.mpr hnew
        rw [hnone, BEq.rfl]
        cases q <;> simp [eq_comm]
      · rw [beq_eq_false_iff_ne.mpr hn]
        simp [hn, Ne.symm hn]

end

mutual

theorem nodup_contents : ∀ {t : FileTree}, t.WellFormed → (t.contents.map Prod.fst).Nodup
  | file content, _ => List.nodup_nil
  | directory es, h => by
    rw [contents]
    exact nodup_contentsOf (wellFormed_directory.mp h).1 (wellFormed_directory.mp h).2

theorem nodup_contentsOf : ∀ {es : List (String × FileTree)}, (es.map Prod.fst).Nodup →
    (∀ e ∈ es, IsEntryName e.1 ∧ e.2.WellFormed) → ((contentsOf es).map Prod.fst).Nodup
  | [], _, _ => List.nodup_nil
  | (name, t) :: rest, hnodup, hes => by
    obtain ⟨hnew, hnodup⟩ := List.nodup_cons.mp hnodup
    obtain ⟨⟨-, ht⟩, hes⟩ := List.forall_mem_cons.mp hes
    have hinside : (t.contents.map fun (place, s) => (name :: place, s)).map Prod.fst =
        (t.contents.map Prod.fst).map (name :: ·) := by
      rw [List.map_map, List.map_map]
      rfl
    rw [contentsOf, List.map_append, List.map_cons, hinside, List.nodup_append', List.nodup_cons]
    refine ⟨⟨fun hmem => ?_, (nodup_contents ht).map (List.cons_injective)⟩,
      nodup_contentsOf hnodup hes, fun place hplace hmem => ?_⟩
    · obtain ⟨q, hq, heq⟩ := List.mem_map.mp hmem
      obtain ⟨e, he, rfl⟩ := List.mem_map.mp hq
      exact ((mem_contents ht).mp he).1 (List.cons.inj heq).2
    · obtain ⟨q, rfl⟩ : ∃ q, place = name :: q := by
        rcases List.mem_cons.mp hplace with rfl | hplace
        · exact ⟨[], rfl⟩
        · obtain ⟨q, -, rfl⟩ := List.mem_map.mp hplace
          exact ⟨q, rfl⟩
      obtain ⟨⟨_, s⟩, he, rfl⟩ := List.mem_map.mp hmem
      have hat := ((mem_contentsOf hnodup hes).mp he).2
      rw [at?_directory_cons, lookup_eq_none_iff_not_mem.mpr hnew] at hat
      cases hat

end

/-! The order of a walk. -/

theorem placeLe_total : ∀ a b : Place, (placeLe a b || placeLe b a) = true
  | [], _ => by simp [placeLe]
  | _ :: _, [] => by simp [placeLe]
  | a :: as, b :: bs => by
    have ih := placeLe_total as bs
    rw [Bool.or_eq_true] at ih ⊢
    rcases lt_trichotomy a b with hlt | rfl | hlt
    · simp [placeLe, hlt]
    · simpa [placeLe] using ih
    · simp [placeLe, hlt]

theorem placeLe_antisymm : ∀ {a b : Place}, placeLe a b = true → placeLe b a = true → a = b
  | [], [], _, _ => rfl
  | [], _ :: _, _, h => by simp [placeLe] at h
  | _ :: _, [], h, _ => by simp [placeLe] at h
  | a :: as, b :: bs, hab, hba => by
    simp only [placeLe, Bool.or_eq_true, decide_eq_true_eq, Bool.and_eq_true, beq_iff_eq] at hab hba
    rcases hab with hlt | ⟨rfl, hab⟩
    · rcases hba with hgt | ⟨rfl, -⟩
      · exact absurd hlt (lt_asymm hgt)
      · exact absurd hlt (lt_irrefl _)
    · rcases hba with hlt | ⟨-, hba⟩
      · exact absurd hlt (lt_irrefl _)
      · rw [placeLe_antisymm hab hba]

theorem placeLe_trans : ∀ a b c : Place, placeLe a b = true → placeLe b c = true →
    placeLe a c = true
  | [], _, _, _, _ => by simp [placeLe]
  | _ :: _, [], _, h, _ => by simp [placeLe] at h
  | _ :: _, _ :: _, [], _, h => by simp [placeLe] at h
  | a :: as, b :: bs, c :: cs, hab, hbc => by
    simp only [placeLe, Bool.or_eq_true, decide_eq_true_eq, Bool.and_eq_true, beq_iff_eq] at hab hbc ⊢
    rcases hab with hab | ⟨rfl, hab⟩
    · rcases hbc with hbc | ⟨rfl, -⟩
      · exact .inl (lt_trans hab hbc)
      · exact .inl hab
    · exact hbc.imp_right fun ⟨heq, hbc⟩ => ⟨heq, placeLe_trans as bs cs hab hbc⟩

/-- Two walks that agree on the places that matter pass them in the same order. -/
theorem filter_mergeSort_congr {xs ys : List Place} (hxs : xs.Nodup) (hys : ys.Nodup)
    {test : Place → Bool} (h : ∀ place, test place = true → (place ∈ xs ↔ place ∈ ys)) :
    (xs.mergeSort placeLe).filter test = (ys.mergeSort placeLe).filter test := by
  have hsorted (zs : List Place) :
      ((zs.mergeSort placeLe).filter test).Pairwise (placeLe · · = true) :=
    (List.pairwise_mergeSort placeLe_trans placeLe_total zs).filter test
  have hperm (zs : List Place) : ((zs.mergeSort placeLe).filter test).Perm (zs.filter test) :=
    (List.mergeSort_perm zs placeLe).filter test
  refine List.Perm.eq_of_pairwise (fun _ _ _ _ => placeLe_antisymm) (hsorted xs) (hsorted ys) ?_
  refine (hperm xs).trans (.trans ?_ (hperm ys).symm)
  rw [List.perm_ext_iff_of_nodup (hxs.filter _) (hys.filter _)]
  intro place
  rw [List.mem_filter, List.mem_filter]
  exact and_congr_left (h place)

end FileTree

open FileTree Disk

namespace FilePath

/-! Search roots. -/

theorem isAbsolute_of_not_mem {text : String} (h : '/' ∉ text.toList) :
    (mk text).isAbsolute = false := by
  rw [isAbsolute, beq_eq_false_iff_ne]
  exact fun hhead => h (List.mem_of_mem_head? hhead)

theorem searchStep_spec {p q : FilePath} {piece : String} (hslash : '/' ∉ piece.toList)
    (h : p.searchStep piece = some q) :
    q.isAbsolute = p.isAbsolute ∧ placeOf q.pieces = placeOf p.pieces ++ placeOf [piece] := by
  rw [searchStep] at h
  split at h
  · next hp =>
    subst hp
    split at h
    · cases h
    · obtain rfl := Option.some.inj h
      rw [pieces_of_not_mem hslash, isAbsolute_of_not_mem hslash]
      exact ⟨rfl, rfl⟩
  · obtain rfl := Option.some.inj h
    obtain ⟨front, hpieces, hplace, habs⟩ := pieces_join p hslash
    exact ⟨habs, by rw [hpieces, placeOf_append, hplace]⟩

theorem foldlM_searchStep_spec {p q : FilePath} {pieces : List String}
    (hslash : ∀ piece ∈ pieces, '/' ∉ piece.toList) (h : pieces.foldlM searchStep p = some q) :
    q.isAbsolute = p.isAbsolute ∧ placeOf q.pieces = placeOf p.pieces ++ placeOf pieces := by
  induction pieces generalizing p with
  | nil =>
    cases h
    exact ⟨rfl, by simp⟩
  | cons piece rest ih =>
    obtain ⟨hpiece, hrest⟩ := List.forall_mem_cons.mp hslash
    rw [List.foldlM_cons] at h
    obtain ⟨r, hr, h⟩ := Option.bind_eq_some_iff.mp h
    obtain ⟨habs, hplace⟩ := searchStep_spec hpiece hr
    obtain ⟨habs', hplace'⟩ := ih hrest h
    refine ⟨habs'.trans habs, ?_⟩
    rw [hplace', hplace, List.append_assoc, ← placeOf_append]
    rfl

theorem searchRoot?_spec {dir root : FilePath} (h : dir.searchRoot? = some root) :
    root.isAbsolute = dir.isAbsolute ∧ placeOf root.pieces = placeOf dir.pieces := by
  have hslash : ∀ piece ∈ dir.pieces, '/' ∉ piece.toList := fun _ => slash_not_mem
  rw [searchRoot?] at h
  split at h
  · next habs =>
    obtain ⟨rest, -, hpieces⟩ := isAbsolute_iff.mp habs
    rw [hpieces] at hslash h
    obtain ⟨habs', hplace⟩ := foldlM_searchStep_spec (List.forall_mem_cons.mp hslash).2 h
    exact ⟨habs'.trans habs.symm, by rw [hplace, hpieces]; rfl⟩
  · next habs =>
    obtain ⟨habs', hplace⟩ := foldlM_searchStep_spec hslash h
    exact ⟨habs'.trans (Bool.not_eq_true _ ▸ habs).symm, hplace⟩

theorem pieces_names {names : List String} (hne : names ≠ [])
    (hnames : ∀ name ∈ names, IsEntryName name) :
    (mk ("/".intercalate names)).pieces = names ∧
      (mk ("/".intercalate names)).isAbsolute = false := by
  have hpieces : (mk ("/".intercalate names)).pieces = names :=
    pieces_mk hne fun name h => (hnames name h).slash
  refine ⟨hpieces, ?_⟩
  rw [Bool.eq_false_iff]
  intro habs
  obtain ⟨rest, -, heq⟩ := isAbsolute_iff.mp habs
  rw [hpieces] at heq
  exact (hnames "" (heq ▸ List.mem_cons_self)).nonempty rfl

/-- What is found below a root comes behind pieces that do not depend on it. -/
theorem pieces_below (root : FilePath) : ∃ front, placeOf front = placeOf root.pieces ∧
    ∀ names : List String, names ≠ [] → (∀ name ∈ names, IsEntryName name) →
      (root.below names).pieces = front ++ names ∧
      (root.below names).isAbsolute = root.isAbsolute := by
  by_cases hroot : root = here
  · subst hroot
    exact ⟨[], rfl, fun names => pieces_names⟩
  · obtain ⟨front, hplace, hjoin⟩ := pieces_join_relative root
    refine ⟨front, hplace, fun names hne hnames => ?_⟩
    obtain ⟨hpieces, hrelative⟩ := pieces_names hne hnames
    obtain ⟨hjoined, habs⟩ := hjoin _ (beq_eq_false_iff_ne.mp hrelative)
    rw [below, if_neg hroot]
    exact ⟨by rw [hjoined, hpieces], habs⟩

end FilePath

theorem Format.ofFile?_sourceFile {file : FilePath} {front : List String} {stem : String}
    (hpieces : file.pieces = front ++ [stem ++ ".rs"]) (hname : IsEntryName (stem ++ ".rs")) :
    Format.ofFile? file = none := by
  have hext : Text.afterLast? '.' (stem ++ ".rs").toList = some ['r', 's'] := by
    rw [String.toList_append]
    exact Text.afterLast?_append (by decide) _
  rw [Format.ofFile?, FilePath.extension?,
    FilePath.name?_eq hpieces (isName_of_isEntryName hname) hname.not_dots]
  simp only [Option.bind_eq_bind, Option.bind_some, hext]
  decide

namespace Disk

variable {d : Disk} {dir root : FilePath}

theorem names_below (hroot : dir.searchRoot? = some root) (hnul : '\x00' ∉ dir.text.toList)
    {init : Place} {last : String} (hnames : ∀ name ∈ init ++ [last], IsEntryName name) :
    d.Names (root.below (init ++ [last])) (d.place dir ++ init) last := by
  obtain ⟨hrootAbs, hrootPlace⟩ := FilePath.searchRoot?_spec hroot
  obtain ⟨front, hplace, hbelow⟩ := FilePath.pieces_below root
  obtain ⟨hpieces, habs⟩ := hbelow (init ++ [last]) (by simp) hnames
  have hkept : placeOf (init ++ [last]) = init ++ [last] :=
    placeOf_of_names fun name h => isName_of_isEntryName (hnames name h)
  refine ⟨hnames last (by simp), ⟨front ++ init, ?_, ?_⟩, ?_⟩
  · rw [hpieces, List.append_assoc]
  · have hinit : placeOf init = init :=
      placeOf_of_names fun name h => isName_of_isEntryName (hnames name (by simp [h]))
    rw [start, habs, hrootAbs, placeOf_append, hplace, hrootPlace, hinit, place, start,
      List.append_assoc]
  · rw [nul_not_mem_iff, hpieces, placeOf_append, hplace, hrootPlace, hkept]
    intro name hname
    rcases List.mem_append.mp hname with hname | hname
    · exact nul_not_mem_iff.mp hnul name hname
    · exact (hnames name hname).nul

variable (hd : d.IsWhole)

include hd

theorem mem_filesBelow (h : d.isDirectory dir = true) {names : Place} :
    names ∈ d.filesBelow dir ↔
      names ≠ [] ∧ ∃ content, d.tree.at? (d.place dir ++ names) = some (.file content) := by
  obtain ⟨es, hfind⟩ := isDirectory_iff.mp h
  have hat := hd.at?_of_find hfind
  rw [filesBelow, hfind, List.mem_filterMap]
  simp only [Prod.exists, mem_contents (hd.tree.of_at? hat), at?_append, hat, Option.bind_some]
  constructor
  · rintro ⟨place, s, ⟨hne, hs⟩, hfile⟩
    cases s with
    | directory inner => cases hfile
    | file content =>
      obtain rfl := Option.some.inj hfile
      exact ⟨hne, content, hs⟩
  · rintro ⟨hne, content, hs⟩
    exact ⟨names, _, ⟨hne, hs⟩, rfl⟩

theorem nodup_filesBelow (dir : FilePath) : (d.filesBelow dir).Nodup := by
  rw [filesBelow]
  split
  · next t hfind =>
    have hsub (xs : List (Place × FileTree)) : (xs.filterMap fun (place, s) =>
        if s.isDirectory then none else some place).Sublist (xs.map Prod.fst) := by
      induction xs with
      | nil => exact .slnil
      | cons e xs ih =>
        obtain ⟨place, file | entries⟩ := e
        · exact ih.cons_cons _
        · exact ih.cons _
    exact (hsub _).nodup (nodup_contents (hd.tree.of_at? (hd.at?_of_find hfind)))
  · exact List.nodup_nil

omit hd

/-! Searches. -/

theorem discover_eq_ok_iff {inputs : List FilePath} :
    ((discover dir : Job Action _) d).1.result = .ok inputs ↔ d.isDirectory dir = true ∧
      inputs ≠ [] ∧ inputs =
        (foundFiles dir (d.filesBelow dir)).filter fun file => (Format.ofFile? file).isSome := by
  rw [discover_eq]
  split
  · next hdir =>
    rw [result_selectInputs, and_iff_right hdir]
    split
    · next hempty =>
      rw [List.isEmpty_iff] at hempty
      rw [hempty]
      simp
    · next hempty =>
      rw [List.isEmpty_iff] at hempty
      rw [Except.ok.injEq, eq_comm]
      constructor
      · rintro rfl
        exact ⟨hempty, rfl⟩
      · exact And.right
  · next hdir => exact ⟨nofun, fun h => absurd h.1 hdir⟩

include hd

/-- What is discovered are definition files, and each path leads to where its file was found. -/
theorem exists_of_mem_discover {inputs : List FilePath}
    (h : ((discover dir : Job Action _) d).1.result = .ok inputs) {file : FilePath}
    (hfile : file ∈ inputs) : (Format.ofFile? file).isSome = true ∧
      ∃ parent last content, d.Names file parent last ∧ d.place dir <+: parent ∧
        d.tree.at? (parent ++ [last]) = some (.file content) := by
  obtain ⟨hdir, -, rfl⟩ := discover_eq_ok_iff.mp h
  obtain ⟨hfile, hformat⟩ := List.mem_filter.mp hfile
  refine ⟨hformat, ?_⟩
  rw [foundFiles] at hfile
  split at hfile
  · cases hfile
  · next root hroot =>
    obtain ⟨names, hnames, rfl⟩ := List.mem_map.mp hfile
    rw [List.mem_mergeSort, mem_filesBelow hd hdir] at hnames
    obtain ⟨hne, content, hat⟩ := hnames
    obtain ⟨init, last, rfl⟩ := (List.eq_nil_or_concat' names).resolve_left hne
    have hentries := hd.tree.isEntryName hat
    have hbelow := names_below (d := d) hroot (hd.isDirectory_iff_at?.mp hdir).2.1
      fun name hname => hentries name (List.mem_append_right _ hname)
    exact ⟨_, last, content, hbelow, List.prefix_append _ _, by rwa [List.append_assoc]⟩

theorem discover_of_kept {inputs : List FilePath}
    (h : ((discover dir : Job Action _) d).1.result = .ok inputs) {t : FileTree}
    (hwhole : IsWhole { d with tree := t }) (hdir : isDirectory { d with tree := t } dir = true)
    (hkept : ∀ file ∈ inputs, ∃ content, t.at? (d.place file) = some (.file content))
    (hnew : ∀ file parent last content, (Format.ofFile? file).isSome = true →
      d.Names file parent last → t.at? (parent ++ [last]) = some (.file content) →
      ∃ old, d.tree.at? (parent ++ [last]) = some (.file old)) :
    ((discover dir : Job Action _) { d with tree := t }).1.result = .ok inputs := by
  have hfound := h
  obtain ⟨hold, hne, hinputs⟩ := discover_eq_ok_iff.mp h
  refine discover_eq_ok_iff.mpr ⟨hdir, hne, hinputs.trans ?_⟩
  rw [foundFiles, foundFiles]
  cases hroot : dir.searchRoot? with
  | none => rfl
  | some root =>
    dsimp only
    rw [List.filter_map, List.filter_map]
    refine congrArg (List.map root.below) (filter_mergeSort_congr (nodup_filesBelow hd dir)
      (nodup_filesBelow hwhole dir) fun names hformat => ?_)
    rw [mem_filesBelow hd hold, mem_filesBelow hwhole hdir]
    refine and_congr_right fun hne => ?_
    obtain ⟨init, last, rfl⟩ := (List.eq_nil_or_concat' names).resolve_left hne
    have hbelow (hentries : ∀ name ∈ init ++ [last], IsEntryName name) :=
      names_below (d := d) hroot (hd.isDirectory_iff_at?.mp hold).2.1 hentries
    constructor
    · rintro ⟨content, hat⟩
      have hentries := hd.tree.isEntryName hat
      have hmem : root.below (init ++ [last]) ∈ inputs := by
        rw [hinputs, List.mem_filter, foundFiles, hroot]
        exact ⟨List.mem_map_of_mem (List.mem_mergeSort.mpr
          ((mem_filesBelow hd hold).mpr ⟨hne, content, hat⟩)), hformat⟩
      have hplace := (hbelow fun name hname =>
        hentries name (List.mem_append_right _ hname)).place_eq
      obtain ⟨kept, hkept⟩ := hkept _ hmem
      exact ⟨kept, by rwa [hplace, List.append_assoc] at hkept⟩
    · rintro ⟨content, hat⟩
      have hentries := hwhole.tree.isEntryName hat
      have hnames := hbelow fun name hname => hentries name (List.mem_append_right _ hname)
      obtain ⟨old, hold⟩ := hnew _ _ _ content hformat hnames (by rwa [List.append_assoc])
      exact ⟨old, by rwa [List.append_assoc] at hold⟩

end Disk

end SignalTree
