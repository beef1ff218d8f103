import SignalTree.Proofs.DiskPlaces

/-!
Creating a directory with its missing parents. Either the directory is there afterwards and
nothing but empty directories on the way to it is new, or nothing has changed
(`createMissing_spec`).
-/
namespace SignalTree

namespace FileTree

/-- The second tree has a directory at the place, and else only what the first one has and
new directories on the way to it. -/
structure Made (place : Place) (t u : FileTree) : Prop where
  wellFormed : u.WellFormed
  root : ∃ es, u = .directory es
  there : ∃ es, u.at? place = some (.directory es)
  kept : (∃ es, t.at? place = some (.directory es)) → u = t
  frame : ∀ q, u.kindAt? q = t.kindAt? q ∨
    t.kindAt? q = none ∧ q <+: place ∧ u.kindAt? q = some .directory

namespace Made

variable {dir : Place} {t u : FileTree} {name : String} {es : List (String × FileTree)}

theorem refl (ht : t.WellFormed) (hroot : ∃ es, t = .directory es)
    (hthere : ∃ es, t.at? dir = some (.directory es)) : Made dir t t :=
  ⟨ht, hroot, hthere, fun _ => rfl, fun _ => .inl rfl⟩

theorem eq_of_at?_concat (h : Made dir t u) {s : FileTree}
    (hs : t.at? (dir ++ [name]) = some s) : u = t := by
  obtain ⟨es, hdir, -⟩ := at?_concat.mp hs
  exact h.kept ⟨es, hdir⟩

theorem at?_file_iff (h : Made dir t u) {place : Place} {content : ByteArray} :
    u.at? place = some (.file content) ↔ t.at? place = some (.file content) := by
  rw [← kindAt?_eq_file, ← kindAt?_eq_file]
  rcases h.frame place with heq | ⟨hnone, -, hnew⟩
  · rw [heq]
  · simp [hnone, hnew]

theorem at?_directory (h : Made dir t u) {place : Place}
    (hold : ∃ es, t.at? place = some (.directory es)) : ∃ es, u.at? place = some (.directory es) := by
  rw [← kindAt?_eq_directory] at hold ⊢
  rcases h.frame place with heq | ⟨hnone, -⟩
  · rw [heq, hold]
  · rw [hold] at hnone
    cases hnone

theorem inside (h : Made dir t u) (hthere : u.at? (dir ++ [name]) = some (.directory es)) :
    Made (dir ++ [name]) t u where
  wellFormed := h.wellFormed
  root := h.root
  there := ⟨es, hthere⟩
  kept := fun ⟨_, hold⟩ => h.eq_of_at?_concat hold
  frame q := (h.frame q).imp_right fun ⟨hnone, hprefix, hnew⟩ =>
    ⟨hnone, hprefix.trans (List.prefix_append _ _), hnew⟩

theorem put (h : Made dir t u) (hdir : u.at? dir = some (.directory es))
    (hfree : es.lookup name = none) (hname : IsEntryName name) :
    Made (dir ++ [name]) t (u.put (dir ++ [name]) (.directory [])) where
  wellFormed := h.wellFormed.put hname (wellFormed_directory.mpr ⟨List.nodup_nil, by simp⟩)
  root := exists_put_eq h.root _ _ _
  there := ⟨[], at?_put hdir⟩
  kept := by
    rintro ⟨inner, hold⟩
    have hu := h.eq_of_at?_concat hold
    rw [← hu, at?_append, hdir] at hold
    simp [hfree] at hold
  frame q := by
    by_cases hq : dir ++ [name] <+: q
    · obtain ⟨rest, rfl⟩ := hq
      have hnone : u.kindAt? (dir ++ [name] ++ rest) = none := by
        rw [kindAt?_eq_none, List.append_assoc, at?_append, hdir]
        simp [hfree]
      have hold : t.kindAt? (dir ++ [name] ++ rest) = none := by
        rcases h.frame (dir ++ [name] ++ rest) with heq | ⟨hold, -⟩
        · rw [← heq, hnone]
        · exact hold
      cases rest with
      | nil =>
        rw [List.append_nil] at hold ⊢
        exact .inr ⟨hold, List.prefix_refl _, kindAt?_eq_directory.mpr ⟨[], at?_put hdir⟩⟩
      | cons head rest =>
        left
        rw [hold, kindAt?_eq_none, at?_put_append hdir]
        rfl
    · rw [kindAt?_put hdir hq]
      exact (h.frame q).imp_right fun ⟨hnone, hprefix, hnew⟩ =>
        ⟨hnone, hprefix.trans (List.prefix_append _ _), hnew⟩

end Made

end FileTree

namespace Disk

open FileTree

variable {d : Disk} {p : FilePath}

theorem update_error {f : Disk → Except OsError FileTree} {e : OsError} {d' : Disk}
    (h : update f d = (.error e, d')) : d' = d := by
  rw [update] at h
  split at h
  · cases (Prod.mk.inj h).1
  · exact (Prod.mk.inj h).2.symm

theorem acceptDirectory_error (e : OsError) : acceptDirectory p (.error e) d =
    (if d.isDirectory p then .ok ⟨⟩ else .error e, d) := rfl

theorem createMissing_of_ne {steps : Nat} (htext : p.text ≠ "") {x : Except OsError PUnit}
    {d' : Disk} (h : createDirectory p d = (x, d')) (hx : x ≠ .error .notFound) :
    createMissing p (steps + 1) d = acceptDirectory p x d' := by
  rw [createMissing, if_neg (by simpa using htext)]
  simp only [bind, StateT.bind, h]

theorem createMissing_of_notFound {steps : Nat} (htext : p.text ≠ "") {d' : Disk}
    (h : createDirectory p d = (.error .notFound, d')) {parent : FilePath}
    (hparent : p.parent? = some parent) : createMissing p (steps + 1) d =
      match createMissing parent steps d' with
      | (.error e, d) => (.error e, d)
      | (.ok _, d) => acceptDirectory p (createDirectory p d).1 (createDirectory p d).2 := by
  rw [createMissing, if_neg (by simpa using htext)]
  simp only [bind, StateT.bind, h, hparent]
  rcases createMissing parent steps d' with ⟨_ | _, d⟩ <;> rfl

/-- What creating a directory comes to: an error that changed nothing, or the directory. -/
def Creates (d : Disk) (p : FilePath) (result : Except OsError PUnit × Disk) : Prop :=
  (∃ e, result = (.error e, d) ∧ d.isDirectory p = false) ∨
    ∃ u, result = (.ok ⟨⟩, { d with tree := u }) ∧ Made (d.place p) d.tree u ∧
      '\x00' ∉ p.text.toList

theorem creates_of_nul {steps : Nat} (htext : p.text ≠ "") (hnul : '\x00' ∈ p.text.toList) :
    Creates d p (createMissing p (steps + 1) d) := by
  have hroute : d.route p = .error .nulInPath := by simp [route, hnul]
  have hcreate : createDirectory p d = (.error .nulInPath, d) := by
    rw [createDirectory, update, hroute]
    rfl
  have hdirectory : d.isDirectory p = false := by
    simp [isDirectory, find, hroute, bind, Except.bind]
  rw [createMissing_of_ne htext hcreate (by simp), acceptDirectory_error,
    if_neg (by simp [hdirectory])]
  exact .inl ⟨_, rfl, hdirectory⟩

variable (hd : d.IsWhole) (hstart : d.HasStart p)

include hd

theorem IsWhole.with_made {place : Place} {u : FileTree} (h : Made place d.tree u) :
    IsWhole { d with tree := u } :=
  hd.with_tree h.wellFormed h.root

theorem creates_refl {es : List (String × FileTree)} (hnul : '\x00' ∉ p.text.toList)
    (h : d.tree.at? (d.place p) = some (.directory es)) : Creates d p (.ok ⟨⟩, d) :=
  .inr ⟨d.tree, rfl, .refl hd.tree hd.root ⟨es, h⟩, hnul⟩

include hstart

theorem target_of_start (hp : p = .here ∨ p = ⟨"/"⟩) (e : OsError) :
    d.target (trimPieces (d.start p ++ p.pieces)) e = .error e := by
  obtain ⟨es, hes⟩ := hstart
  rcases hp with rfl | rfl
  · have hpieces : FilePath.here.pieces = ["."] := by decide
    have hwalk : (d.start .here).foldlM d.follow d.tree = .ok (.directory es) :=
      hd.follow_of_at? (by rwa [placeOf_of_names fun _ h => hd.isName_of_mem_start h])
    rw [hpieces, trimPieces_concat (by decide), target, List.getLast?_concat,
      List.dropLast_concat, hwalk]
    rfl
  · rfl

theorem creates_start {steps : Nat} (hp : p = .here ∨ p = ⟨"/"⟩) :
    Creates d p (createMissing p (steps + 1) d) := by
  have hfacts : p.text ≠ "" ∧ '\x00' ∉ p.text.toList ∧ placeOf p.pieces = [] := by
    rcases hp with rfl | rfl <;> decide
  obtain ⟨htext, hnul, hpieces⟩ := hfacts
  have htarget := target_of_start hd hstart hp .alreadyExists
  obtain ⟨es, hes⟩ := hstart
  have hthere : d.tree.at? (d.place p) = some (.directory es) := by
    rwa [place, hpieces, List.append_nil]
  have hcreate : createDirectory p d = (.error .alreadyExists, d) := by
    rw [createDirectory, update, hd.route_eq htext hnul]
    simp [htarget, bind, Except.bind]
  have hdirectory := hd.isDirectory_iff_at?.mpr ⟨htext, hnul, es, hthere⟩
  rw [createMissing_of_ne htext hcreate (by simp), acceptDirectory_error, if_pos hdirectory]
  exact creates_refl hd hnul hthere

omit hstart

theorem creates_inside {dir : Place} {name : String} (hp : d.Names p dir name) {u : FileTree}
    (hmade : Made dir d.tree u) {x : Except OsError PUnit} {d' : Disk}
    (h : createDirectory p { d with tree := u } = (x, d')) :
    Creates d p (acceptDirectory p x d') := by
  have hwhole := hd.with_made hmade
  have hp' : Names { d with tree := u } p dir name := ⟨hp.isEntryName, hp.pieces, hp.nul⟩
  obtain ⟨es, hdir⟩ := hmade.there
  cases hl : es.lookup name with
  | none =>
    rw [hp'.createDirectory_of_free hwhole hdir hl] at h
    obtain ⟨rfl, rfl⟩ := Prod.mk.inj h
    exact .inr ⟨_, rfl, hp.place_eq ▸ hmade.put hdir hl hp.isEntryName, hp.nul⟩
  | some s =>
    have hthere := at?_concat.mpr ⟨es, hdir, hl⟩
    rw [hp'.createDirectory_of_taken hwhole hthere] at h
    obtain ⟨rfl, rfl⟩ := Prod.mk.inj h
    have hfind := (hp'.find_eq_ok_iff hwhole).mpr hthere
    rw [acceptDirectory_error]
    cases s with
    | directory inner =>
      rw [if_pos (isDirectory_iff.mpr ⟨inner, hfind⟩)]
      exact .inr ⟨u, rfl, hp.place_eq ▸ hmade.inside hthere, hp.nul⟩
    | file content =>
      have hold := hmade.at?_file_iff.mp hthere
      obtain rfl := hmade.eq_of_at?_concat hold
      have hdirectory : d.isDirectory p = false := by
        simp [isDirectory, (hp.find_eq_ok_iff hd).mpr hold, FileTree.isDirectory]
      rw [if_neg (by simpa using hdirectory)]
      exact .inl ⟨_, rfl, hdirectory⟩

section Named

variable {dir : Place} {name : String} (hp : d.Names p dir name)

include hp

theorem creates_of_ne_notFound {steps : Nat} {x : Except OsError PUnit} {d' : Disk}
    (h : createDirectory p d = (x, d')) (hx : x ≠ .error .notFound) :
    Creates d p (createMissing p (steps + 1) d) := by
  rw [createMissing_of_ne hp.text_ne h hx]
  cases x with
  | ok x =>
    obtain ⟨es, hdir, -, -⟩ := hp.of_createDirectory_eq_ok hd h
    exact creates_inside hd hp (.refl hd.tree hd.root ⟨es, hdir⟩) h
  | error e =>
    obtain rfl := update_error h
    rw [acceptDirectory_error]
    split
    · next hdirectory =>
      obtain ⟨-, hnul, es, hes⟩ := hd.isDirectory_iff_at?.mp hdirectory
      exact creates_refl hd hnul hes
    · next hdirectory => exact .inl ⟨e, rfl, by simpa using hdirectory⟩

theorem creates_of_notFound {steps : Nat} (h : createDirectory p d = (.error .notFound, d))
    {parent : FilePath} (hparent : p.parent? = some parent) (hplace : d.place parent = dir)
    (hcreates : Creates d parent (createMissing parent steps d)) :
    Creates d p (createMissing p (steps + 1) d) := by
  rw [createMissing_of_notFound hp.text_ne h hparent]
  rcases hcreates with ⟨e, he, -⟩ | ⟨u, hu, hmade, -⟩
  · rw [he]
    refine .inl ⟨e, rfl, Bool.eq_false_iff.mpr fun hdirectory => ?_⟩
    obtain ⟨es, hfind⟩ := isDirectory_iff.mp hdirectory
    rw [hp.createDirectory_of_taken hd ((hp.find_eq_ok_iff hd).mp hfind)] at h
    cases (Prod.mk.inj h).1
  · rw [hu]
    exact creates_inside hd hp (hplace ▸ hmade) rfl

end Named

theorem createMissing_spec {steps : Nat} (hstart : d.HasStart p) (hp : p.IsPlain)
    (hdots : ".." ∉ p.pieces) (hsteps : p.text.length < steps) :
    Creates d p (createMissing p steps d) := by
  -- Each parent has a shorter text, so the steps never run out.
  induction steps generalizing p with
  | zero => exact absurd hsteps (Nat.not_lt_zero _)
  | succ steps ih =>
    rcases hp with rfl | hp | hp | ⟨front, name, hpieces, hname⟩
    · obtain ⟨es, hes⟩ := hstart
      have hplace : d.place ⟨""⟩ = d.start ⟨""⟩ := List.append_nil _
      have hthere : d.tree.at? (d.place ⟨""⟩) = some (.directory es) := by rwa [hplace]
      exact creates_refl hd (by decide) hthere
    · exact creates_start hd hstart (.inl hp)
    · exact creates_start hd hstart (.inr hp)
    by_cases hnul : '\x00' ∈ p.text.toList
    · exact creates_of_nul (FilePath.text_ne_empty hpieces hname) hnul
    have hnames := names_of_pieces (d := d) hpieces hname hdots hnul
    obtain ⟨parent, hparent, hplain, habs, hplace, hlength⟩ := FilePath.parent?_spec hpieces hname
    have hstarts : d.start parent = d.start p := by rw [start, start, habs]
    have hdots' : ".." ∉ parent.pieces := by
      rw [← dots_mem_placeOf, hplace, dots_mem_placeOf]
      exact fun hmem => hdots (hpieces ▸ List.mem_append_left _ hmem)
    cases hcreate : createDirectory p d with
    | mk x d' =>
      by_cases hx : x = .error .notFound
      · subst hx
        obtain rfl := update_error hcreate
        exact creates_of_notFound hd hnames hcreate hparent (by rw [place, hstarts, hplace])
          (ih (by rwa [HasStart, hstarts]) hplain hdots' (by omega))
      · exact creates_of_ne_notFound hd hnames hcreate hx

theorem createDirectories_spec (hstart : d.HasStart p) (hp : p.IsPlain) (hdots : ".." ∉ p.pieces) :
    Creates d p (createDirectories p d) :=
  createMissing_spec hd hstart hp hdots (Nat.lt_succ_self _)

end Disk

end SignalTree
