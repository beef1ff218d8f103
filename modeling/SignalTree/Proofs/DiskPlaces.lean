import SignalTree.Proofs.PathPieces
import SignalTree.Proofs.TreePlaces

/-!
Paths on a whole file system. A path leads to one place (`Disk.place`), whatever empty steps
and dots it has, and what an operation finds or changes is what stands at that place.
-/
namespace SignalTree.Disk

open FileTree

/-- A whole file system that bounds no names, with a place to start relative paths in. -/
structure IsWhole (d : Disk) : Prop where
  home : d.home = ""
  unbounded : d.limits = Limits.none
  tree : d.tree.WellFormed
  root : ∃ es, d.tree = .directory es
  current : ∀ name ∈ d.current.place, IsEntryName name

def start (d : Disk) (p : FilePath) : Place := if p.isAbsolute then [] else d.current.place

/-- Where a path leads. -/
def place (d : Disk) (p : FilePath) : Place := d.start p ++ placeOf p.pieces

def HasStart (d : Disk) (p : FilePath) : Prop := ∃ es, d.tree.at? (d.start p) = some (.directory es)

variable {d : Disk} {p : FilePath}

theorem isName_of_isEntryName {name : String} (h : IsEntryName name) : isName name = true :=
  isName_iff.mpr ⟨h.nonempty, h.not_dot⟩

namespace IsWhole

variable (hd : d.IsWhole)

include hd

theorem with_tree {t : FileTree} (ht : t.WellFormed) (hroot : ∃ es, t = .directory es) :
    IsWhole { d with tree := t } :=
  ⟨hd.home, hd.unbounded, ht, hroot, hd.current⟩

theorem isRooted_eq (p : FilePath) : d.isRooted p = p.isAbsolute := by
  have hprefix : (d.home ++ "/").toList.isPrefixOf p.text.toList = p.isAbsolute := by
    rw [hd.home, FilePath.isAbsolute]
    cases p.text.toList with
    | nil => rfl
    | cons c cs =>
      change ('/' == c && true) = (c == '/')
      rw [Bool.and_true, Bool.beq_comm]
  rw [isRooted, hprefix, Bool.or_self]

theorem relative?_eq (p : FilePath) : d.relative? p = some (d.start p ++ p.pieces) := by
  have hhome : placeOf (FilePath.mk d.home).pieces = [] := by rw [hd.home]; rfl
  rw [relative?, hd.isRooted_eq, hhome, start]
  cases p.isAbsolute <;> rfl

theorem isExceeded_path (text : String) : Limits.isExceeded d.limits.path text = false := by
  rw [hd.unbounded]
  rfl

theorem lookup_eq (entries : List (String × FileTree)) (name : String) :
    d.lookup entries name = .ok (entries.lookup name) := by
  rw [lookup, hd.unbounded]
  rfl

theorem route_eq (htext : p.text ≠ "") (hnul : '\x00' ∉ p.text.toList) :
    d.route p = .ok (d.start p ++ p.pieces) := by
  rw [route, hd.isExceeded_path, hd.relative?_eq]
  simp [htext, hnul]

theorem of_route_eq_ok {pieces : List String} (h : d.route p = .ok pieces) :
    p.text ≠ "" ∧ '\x00' ∉ p.text.toList ∧ pieces = d.start p ++ p.pieces := by
  by_cases hnul : '\x00' ∈ p.text.toList
  · simp [route, hnul] at h
  by_cases htext : p.text = ""
  · rw [route, hd.isExceeded_path] at h
    simp [htext] at h
  rw [hd.route_eq htext hnul] at h
  exact ⟨htext, hnul, (Except.ok.inj h).symm⟩

theorem isName_of_mem_start {name : String} (h : name ∈ d.start p) : isName name = true := by
  rw [start] at h
  split at h
  · cases h
  · exact isName_of_isEntryName (hd.current name h)

theorem placeOf_start (pieces : List String) :
    placeOf (d.start p ++ pieces) = d.start p ++ placeOf pieces := by
  rw [placeOf_append, placeOf_of_names fun _ h => hd.isName_of_mem_start h]

/-! Steps along a path. -/

theorem follow_of_isName {es : List (String × FileTree)} {piece : String}
    (h : isName piece = true) :
    d.follow (.directory es) piece =
      match es.lookup piece with
      | some t => .ok t
      | none => .error .notFound := by
  rw [follow, if_pos h, hd.lookup_eq]
  cases es.lookup piece <;> rfl

theorem at?_of_follow {t s : FileTree} {pieces : List String}
    (h : pieces.foldlM d.follow t = .ok s) : t.at? (placeOf pieces) = some s := by
  induction pieces generalizing t with
  | nil => rw [← Except.ok.inj h, placeOf_nil, at?_nil]
  | cons piece rest ih =>
    rw [List.foldlM_cons] at h
    cases t with
    | file content => cases h
    | directory es =>
      rw [placeOf_cons]
      split
      · next hname =>
        rw [hd.follow_of_isName hname] at h
        cases hl : es.lookup piece with
        | none => rw [hl] at h; cases h
        | some u =>
          rw [hl] at h
          rw [at?_directory_cons, hl]
          exact ih h
      · next hname =>
        rw [follow, if_neg hname] at h
        exact ih h

theorem follow_of_at? {t : FileTree} {es : List (String × FileTree)} {pieces : List String}
    (h : t.at? (placeOf pieces) = some (.directory es)) :
    pieces.foldlM d.follow t = .ok (.directory es) := by
  induction pieces generalizing t with
  | nil => rw [List.foldlM_nil, ← Option.some.inj ((at?_nil t).symm.trans h)]; rfl
  | cons piece rest ih =>
    rw [placeOf_cons] at h
    rw [List.foldlM_cons]
    cases t with
    | file content =>
      split at h
      · cases h
      · cases hr : placeOf rest <;> simp [hr] at h
    | directory entries =>
      split at h
      · next hname =>
        obtain ⟨u, hu, h⟩ := Option.bind_eq_some_iff.mp h
        rw [hd.follow_of_isName hname, hu]
        exact ih h
      · next hname =>
        rw [follow, if_neg hname]
        exact ih h

theorem at?_of_find {s : FileTree} (h : d.find p = .ok s) : d.tree.at? (d.place p) = some s := by
  rw [find] at h
  obtain ⟨pieces, hroute, h⟩ := Except.bind_eq_ok.mp h
  obtain ⟨-, -, rfl⟩ := hd.of_route_eq_ok hroute
  rw [place, ← hd.placeOf_start]
  exact hd.at?_of_follow h

theorem find_of_directory {es : List (String × FileTree)} (htext : p.text ≠ "")
    (hnul : '\x00' ∉ p.text.toList) (h : d.tree.at? (d.place p) = some (.directory es)) :
    d.find p = .ok (.directory es) := by
  rw [find, hd.route_eq htext hnul]
  refine hd.follow_of_at? ?_
  rwa [hd.placeOf_start]

end IsWhole

theorem isDirectory_iff : d.isDirectory p = true ↔ ∃ es, d.find p = .ok (.directory es) := by
  rw [isDirectory]
  rcases d.find p with _ | (_ | _) <;> simp [FileTree.isDirectory]

theorem IsWhole.isDirectory_iff_at? (hd : d.IsWhole) : d.isDirectory p = true ↔
    p.text ≠ "" ∧ '\x00' ∉ p.text.toList ∧
      ∃ es, d.tree.at? (d.place p) = some (.directory es) := by
  rw [isDirectory_iff]
  constructor
  · rintro ⟨es, hfind⟩
    obtain ⟨pieces, hroute, -⟩ := Except.bind_eq_ok.mp hfind
    obtain ⟨htext, hnul, -⟩ := hd.of_route_eq_ok hroute
    exact ⟨htext, hnul, es, hd.at?_of_find hfind⟩
  · exact fun ⟨htext, hnul, es, hes⟩ => ⟨es, hd.find_of_directory htext hnul hes⟩

theorem trimPieces_concat {front : List String} {name : String} (h : name ≠ "") :
    trimPieces (front ++ [name]) = front ++ [name] := by
  simp [trimPieces, h]

/-- A path that ends in a name, by the place of the directory that the name is in. -/
structure Names (d : Disk) (p : FilePath) (dir : Place) (name : String) : Prop where
  isEntryName : IsEntryName name
  pieces : ∃ front, p.pieces = front ++ [name] ∧ d.start p ++ placeOf front = dir
  nul : '\x00' ∉ p.text.toList

theorem names_of_pieces {front : List String} {name : String} (hp : p.pieces = front ++ [name])
    (hname : isName name = true) (hdots : ".." ∉ p.pieces) (hnul : '\x00' ∉ p.text.toList) :
    d.Names p (d.start p ++ placeOf front) name where
  isEntryName := by
    have hmem : name ∈ p.pieces := by rw [hp]; simp
    obtain ⟨hne, hdot⟩ := isName_iff.mp hname
    exact ⟨hne, hdot, fun h => hdots (h ▸ hmem), FilePath.slash_not_mem hmem,
      FilePath.not_mem_piece (by decide) hnul hmem⟩
  pieces := ⟨front, hp, rfl⟩
  nul := hnul

namespace Names

variable {dir : Place} {name : String} {es : List (String × FileTree)} (hp : d.Names p dir name)

include hp

theorem isName : isName name = true := isName_of_isEntryName hp.isEntryName

theorem with_tree (t : FileTree) : Names { d with tree := t } p dir name :=
  ⟨hp.isEntryName, hp.pieces, hp.nul⟩

theorem place_eq : d.place p = dir ++ [name] := by
  obtain ⟨front, hpieces, rfl⟩ := hp.pieces
  rw [place, hpieces, placeOf_concat hp.isName, List.append_assoc]

theorem text_ne : p.text ≠ "" := by
  obtain ⟨front, hpieces, -⟩ := hp.pieces
  exact FilePath.text_ne_empty hpieces hp.isName

/-- The way to a name leads through the directory that it is in. -/
theorem exists_route (hd : d.IsWhole) :
    ∃ front, d.route p = .ok (front ++ [name]) ∧ placeOf front = dir := by
  obtain ⟨front, hpieces, hdir⟩ := hp.pieces
  refine ⟨d.start p ++ front, ?_, by rw [hd.placeOf_start, hdir]⟩
  rw [hd.route_eq hp.text_ne hp.nul, hpieces, List.append_assoc]

theorem target_eq (hd : d.IsWhole) {front : List String} (hfront : placeOf front = dir)
    (hdir : d.tree.at? dir = some (.directory es)) (e : OsError) :
    d.target (trimPieces (front ++ [name])) e = .ok ⟨dir, es, name⟩ := by
  rw [trimPieces_concat (isName_iff.mp hp.isName).1, target, List.getLast?_concat,
    List.dropLast_concat, hd.follow_of_at? (by rw [hfront]; exact hdir), hfront]
  simp [hp.isName, bind, Except.bind, pure, Except.pure]

theorem of_target_eq_ok (hd : d.IsWhole) {front : List String} (hfront : placeOf front = dir)
    {e : OsError} {t : Target} (h : d.target (trimPieces (front ++ [name])) e = .ok t) :
    ∃ es, d.tree.at? dir = some (.directory es) ∧ t = ⟨dir, es, name⟩ := by
  have htarget := h
  rw [trimPieces_concat (isName_iff.mp hp.isName).1, target, List.getLast?_concat,
    List.dropLast_concat] at h
  obtain ⟨u, hu, h⟩ := Except.bind_eq_ok.mp h
  cases u with
  | file content => cases h
  | directory es =>
    have hdir : d.tree.at? dir = some (.directory es) := hfront ▸ hd.at?_of_follow hu
    refine ⟨es, hdir, ?_⟩
    rw [hp.target_eq hd hfront hdir] at htarget
    exact (Except.ok.inj htarget).symm

theorem find_eq_ok_iff (hd : d.IsWhole) {s : FileTree} :
    d.find p = .ok s ↔ d.tree.at? (dir ++ [name]) = some s := by
  refine ⟨fun h => hp.place_eq ▸ hd.at?_of_find h, fun h => ?_⟩
  obtain ⟨front, hroute, hfront⟩ := hp.exists_route hd
  obtain ⟨es, hdir, hs⟩ := at?_concat.mp h
  rw [find, hroute]
  change (front ++ [name]).foldlM d.follow d.tree = _
  rw [List.foldlM_append, hd.follow_of_at? (hfront ▸ hdir)]
  change [name].foldlM d.follow _ = _
  rw [List.foldlM_cons, hd.follow_of_isName hp.isName, hs]
  rfl

theorem exists_target (hd : d.IsWhole) (hdir : d.tree.at? dir = some (.directory es)) :
    ∃ front, d.route p = .ok (front ++ [name]) ∧
      (∀ e, d.target (trimPieces (front ++ [name])) e = .ok ⟨dir, es, name⟩) ∧
      d.entry ⟨dir, es, name⟩ = .ok (es.lookup name) := by
  obtain ⟨front, hroute, hfront⟩ := hp.exists_route hd
  exact ⟨front, hroute, hp.target_eq hd hfront hdir, hd.lookup_eq es name⟩

/-! Operations on the last step. -/

theorem createDirectory_of_free (hd : d.IsWhole) (hdir : d.tree.at? dir = some (.directory es))
    (hfree : es.lookup name = none) : createDirectory p d =
      (.ok ⟨⟩, { d with tree := d.tree.put (dir ++ [name]) (.directory []) }) := by
  obtain ⟨front, hroute, htarget, hentry⟩ := hp.exists_target hd hdir
  rw [createDirectory, update, hroute]
  simp [htarget, hentry, hfree, bind, Except.bind, pure, Except.pure, Target.place]

theorem createDirectory_of_taken (hd : d.IsWhole) {s : FileTree}
    (h : d.tree.at? (dir ++ [name]) = some s) :
    createDirectory p d = (.error .alreadyExists, d) := by
  obtain ⟨es, hdir, hs⟩ := at?_concat.mp h
  obtain ⟨front, hroute, htarget, hentry⟩ := hp.exists_target hd hdir
  rw [createDirectory, update, hroute]
  simp [htarget, hentry, hs, bind, Except.bind]

theorem of_createDirectory_eq_ok (hd : d.IsWhole) {x : PUnit} {d' : Disk}
    (h : createDirectory p d = (.ok x, d')) : ∃ es, d.tree.at? dir = some (.directory es) ∧
      es.lookup name = none ∧
      d' = { d with tree := d.tree.put (dir ++ [name]) (.directory []) } := by
  obtain ⟨front, hroute, hfront⟩ := hp.exists_route hd
  cases ht : d.target (trimPieces (front ++ [name])) .alreadyExists with
  | error e =>
    rw [createDirectory, update, hroute] at h
    simp only [ht, bind, Except.bind] at h
    cases (Prod.mk.inj h).1
  | ok t =>
    obtain ⟨es, hdir, rfl⟩ := hp.of_target_eq_ok hd hfront ht
    refine ⟨es, hdir, ?_⟩
    cases hl : es.lookup name with
    | some s =>
      rw [hp.createDirectory_of_taken hd (at?_concat.mpr ⟨es, hdir, hl⟩)] at h
      cases (Prod.mk.inj h).1
    | none =>
      rw [hp.createDirectory_of_free hd hdir hl] at h
      exact ⟨rfl, (Prod.mk.inj h).2.symm⟩

theorem writeBytes_of_no_directory (hd : d.IsWhole) (hdir : d.tree.at? dir = some (.directory es))
    (hfree : ∀ inner, es.lookup name ≠ some (.directory inner)) (content : ByteArray) :
    writeBytes p content d =
      (.ok ⟨⟩, { d with tree := d.tree.put (dir ++ [name]) (.file content) }) := by
  obtain ⟨front, hroute, htarget, hentry⟩ := hp.exists_target hd hdir
  rw [writeBytes, update, hroute]
  have hne := (isName_iff.mp hp.isName).1
  cases hl : es.lookup name with
  | none => simp [htarget, hentry, hl, hne, bind, Except.bind, pure, Except.pure, Target.place]
  | some t =>
    cases t with
    | directory inner => exact absurd hl (hfree inner)
    | file old => simp [htarget, hentry, hl, hne, bind, Except.bind, pure, Except.pure, Target.place]

theorem removeTree_of_directory (hd : d.IsWhole)
    (h : d.tree.at? (dir ++ [name]) = some (.directory es)) :
    removeTree p d = (.ok ⟨⟩, { d with tree := d.tree.erase (dir ++ [name]) }) := by
  obtain ⟨front, hroute, hfront⟩ := hp.exists_route hd
  rw [removeTree, listing, (hp.find_eq_ok_iff hd).mpr h, hroute]
  simp [bind, Except.bind, pure, Except.pure, trimPieces_concat (isName_iff.mp hp.isName).1,
    hp.isName, placeOf_concat hp.isName, hfront]

theorem removeTree_of_file (hd : d.IsWhole) {content : ByteArray}
    (h : d.tree.at? (dir ++ [name]) = some (.file content)) :
    removeTree p d = (.error .notADirectory, d) := by
  rw [removeTree, listing, (hp.find_eq_ok_iff hd).mpr h]
  rfl

theorem rename_of_free (hd : d.IsWhole) {source : FilePath} {old : String}
    (hsource : d.Names source dir old) (hne : old ≠ name) {moved : FileTree}
    (hmoved : d.tree.at? (dir ++ [old]) = some moved)
    (hdir : d.tree.at? dir = some (.directory es)) (hfree : es.lookup name = none) :
    rename source p d = (.ok ⟨⟩,
      { d with tree := (d.tree.erase (dir ++ [old])).put (dir ++ [name]) moved }) := by
  obtain ⟨front, hroute, htarget, hentry⟩ := hp.exists_target hd hdir
  obtain ⟨front', hroute', hfront'⟩ := hsource.exists_route hd
  rw [rename, update, hroute, hroute', (hsource.find_eq_ok_iff hd).mpr hmoved]
  have hprefix : (dir ++ [old]).isPrefixOf (dir ++ [name]) = false := by
    rw [Bool.eq_false_iff]
    intro h
    have := (List.isPrefixOf_iff_prefix.mp h).eq_of_length (by simp)
    exact hne (by simpa using this)
  simp [htarget, hentry, hfree, bind, Except.bind, pure, Except.pure, Target.place,
    placeOf_concat hsource.isName, hfront', hprefix]

end Names

end SignalTree.Disk
