import SignalTree.Proofs.Closed
import SignalTree.Proofs.DistinctKeys
import SignalTree.Proofs.EntryTree
import SignalTree.Proofs.Registering

/-!
The paths of a nested document. Entries are read parents first, and where no name among
children holds a dot, no path is read twice: the nodes make a registry without gaps.
-/
namespace SignalTree

namespace Path

/-- Paths below a path in the order of a walk: each after its parent, and none twice. -/
structure DescendsFrom (path : Path) (below : List Path) : Prop where
  nodup : below.Nodup
  under : ∀ q ∈ below, path ∈ q.ancestors
  parentFirst : ∀ before q after, below = before ++ q :: after →
    ∃ a ∈ path :: before, q.parent? = some a

namespace DescendsFrom

variable {path : Path} {xs ys : List Path}

theorem nil (path : Path) : DescendsFrom path [] := ⟨List.nodup_nil, by simp, by simp⟩

theorem child {s : Segment} (h : DescendsFrom (path.child s) xs) :
    DescendsFrom path (path.child s :: xs) where
  nodup := List.nodup_cons.mpr ⟨fun hmem => not_mem_ancestors_self _ (h.under _ hmem), h.nodup⟩
  under := by
    intro q hq
    rcases List.mem_cons.mp hq with rfl | hq
    · exact List.mem_cons_self
    · exact mem_ancestors_trans List.mem_cons_self (h.under q hq)
  parentFirst := by
    intro before q after hsplit
    cases before with
    | nil =>
      obtain ⟨rfl, -⟩ := List.cons.inj hsplit
      exact ⟨path, List.mem_cons_self, rfl⟩
    | cons p before =>
      obtain ⟨rfl, hxs⟩ := List.cons.inj hsplit
      obtain ⟨a, ha, hp⟩ := h.parentFirst before q after hxs
      exact ⟨a, List.mem_cons_of_mem _ ha, hp⟩

theorem append (hx : DescendsFrom path xs) (hy : DescendsFrom path ys) (hd : xs.Disjoint ys) :
    DescendsFrom path (xs ++ ys) where
  nodup := List.nodup_append'.mpr ⟨hx.nodup, hy.nodup, hd⟩
  under q hq := (List.mem_append.mp hq).elim (hx.under q) (hy.under q)
  parentFirst := by
    intro before q after hsplit
    rcases List.append_eq_append_iff.mp hsplit with ⟨middle, rfl, hys⟩ | ⟨middle, rfl, hxs⟩
    · obtain ⟨a, ha, hp⟩ := hy.parentFirst middle q after hys
      rcases List.mem_cons.mp ha with rfl | ha
      · exact ⟨a, List.mem_cons_self, hp⟩
      · exact ⟨a, List.mem_cons_of_mem _ (List.mem_append_right _ ha), hp⟩
    · cases middle with
      | nil =>
        obtain ⟨a, ha, hp⟩ := hy.parentFirst [] q after hxs.symm
        rw [List.mem_singleton.mp ha] at hp
        exact ⟨path, List.mem_cons_self, hp⟩
      | cons p middle =>
        obtain ⟨rfl, rfl⟩ := List.cons.inj hxs
        exact hx.parentFirst before q middle rfl

end DescendsFrom

end Path

namespace Definition.Nested

variable {reserved : List Attribute}

inductive HasChildren (reserved : List Attribute) : Json → List (String × Json) → Prop
  | own {members children : List (String × Json)}
      (held : Json.member? childrenKey members = some (.object children)) :
      HasChildren reserved (.object members) children
  | inside {members children deeper : List (String × Json)} {key : String} {value : Json}
      (held : Json.member? childrenKey members = some (.object children))
      (mem : (key, value) ∈ children) (entry : isReserved reserved key = false)
      (deep : HasChildren reserved value deeper) : HasChildren reserved (.object members) deeper

/-- Names without a dot, from an entry downwards. -/
def DotFree (reserved : List Attribute) (value : Json) : Prop :=
  ∀ children, HasChildren reserved value children → ∀ m ∈ children, '.' ∉ m.1.toList

structure DotFreeEntries (reserved : List Attribute) (members : List (String × Json)) : Prop where
  nodup : (members.map Prod.fst).Nodup
  distinct : Json.EachDistinctKeys members
  dotFree : ∀ m ∈ members, '.' ∉ m.1.toList
  below : ∀ m ∈ members, isReserved reserved m.1 = false → DotFree reserved m.2

theorem dotFree_of_leaf {members : List (String × Json)}
    (h : Json.member? childrenKey members = none) : DotFree reserved (.object members) := by
  intro children hchildren
  cases hchildren with
  | own held => simp [h] at held
  | inside held => simp [h] at held

theorem dotFree_of_children {members children : List (String × Json)}
    (h : Json.member? childrenKey members = some (.object children))
    (hkeys : ∀ m ∈ children, '.' ∉ m.1.toList)
    (hbelow : ∀ m ∈ children, isReserved reserved m.1 = false → DotFree reserved m.2) :
    DotFree reserved (.object members) := by
  intro children' hchildren
  cases hchildren with
  | own held =>
    rw [h] at held
    cases held
    exact hkeys
  | inside held hmem hkey hdeep =>
    rw [h] at held
    cases held
    exact hbelow _ hmem hkey _ hdeep

theorem DotFree.entries {members children : List (String × Json)}
    (h : DotFree reserved (.object members)) (hk : (Json.object children).DistinctKeys)
    (held : Json.member? childrenKey members = some (.object children)) :
    DotFreeEntries reserved children where
  nodup := hk.1
  distinct := hk.2
  dotFree := h children (.own held)
  below _ hm hkey deeper hdeeper := h deeper (.inside held hm hkey hdeeper)

theorem DotFreeEntries.tail {m : String × Json} {rest : List (String × Json)}
    (h : DotFreeEntries reserved (m :: rest)) : DotFreeEntries reserved rest where
  nodup := (List.nodup_cons.mp h.nodup).2
  distinct := h.distinct.2
  dotFree := fun m hm => h.dotFree m (List.mem_cons_of_mem _ hm)
  below := fun m hm => h.below m (List.mem_cons_of_mem _ hm)

theorem path_of_readRecord {path : Path} {members : List (String × Json)} {record : Record}
    (h : readRecord path members = .ok record) : record.path = path := by
  unfold readRecord at h
  split at h
  · next hr =>
    cases h
    simp only [Record.ofAttributes?, Option.ite_none_left_eq_some, Option.some.injEq] at hr
    rw [← hr.2]
  · cases h

theorem disjoint_of_starts {path : Path} {xs ys : List Path} {s : Segment} {keys : List String}
    (hs : s.text ∉ keys) (hx : ∀ q ∈ xs, path.child s ∈ q :: q.ancestors)
    (hy : ∀ q ∈ ys, ∃ t : Segment, t.text ∈ keys ∧ path.child t ∈ q :: q.ancestors) :
    xs.Disjoint ys := by
  intro q hqx hqy
  obtain ⟨t, ht, hmem⟩ := hy q hqy
  have heq := Path.eq_of_depth_eq (hx q hqx) hmem rfl
  cases heq
  exact hs ht

mutual

theorem descends_readEntry (path : Path) : (value : Json) → {records : List Record} →
    value.DistinctKeys → DotFree reserved value → readEntry reserved path value = .ok records →
    ∃ below, records.map Record.path = path :: below ∧ path.DescendsFrom below
  | .object members, records, hk, hd, h => by
    rw [readEntry] at h
    obtain ⟨record, hrecord, h⟩ := Except.bind_eq_ok.mp h
    obtain ⟨below, hbelow, h⟩ := Except.bind_eq_ok.mp h
    cases h
    refine ⟨below.map Record.path, by simp [path_of_readRecord hrecord], ?_⟩
    refine descends_readChildren path members (fun children held => ?_) hbelow
    obtain ⟨before, after, rfl, -⟩ := List.lookup_eq_some_iff.mp held
    exact hd.entries (Json.eachDistinctKeys_iff.mp hk.2 (childrenKey, .object children) (by simp))
      held

theorem descends_readChildren (path : Path) : (members : List (String × Json)) →
    {records : List Record} →
    (∀ children, Json.member? childrenKey members = some (.object children) →
      DotFreeEntries reserved children) →
    readChildren reserved path members = .ok records →
    path.DescendsFrom (records.map Record.path)
  | [], _, _, h => by
    cases h
    exact .nil path
  | (key, value) :: rest, _, hd, h => by
    rw [readChildren_cons] at h
    by_cases hkey : key = childrenKey
    · subst hkey
      match value with
      | .null =>
        cases h
        exact .nil path
      | .object children =>
        have held : Json.member? childrenKey ((childrenKey, .object children) :: rest) =
            some (.object children) := List.lookup_cons_self
        exact (descends_readEntries path children (hd children held) h).1
    · rw [if_neg (by simpa using hkey)] at h
      refine descends_readChildren path rest (fun children held => hd children ?_) h
      rw [Json.member?, List.lookup_cons, beq_false_of_ne (Ne.symm hkey)]
      exact held

theorem descends_readEntries (path : Path) : (members : List (String × Json)) →
    {records : List Record} → DotFreeEntries reserved members →
    readEntries reserved path members = .ok records →
    path.DescendsFrom (records.map Record.path) ∧ ∀ q ∈ records.map Record.path,
      ∃ s : Segment, s.text ∈ members.map Prod.fst ∧ path.child s ∈ q :: q.ancestors
  | [], _, _, h => by
    cases h
    exact ⟨.nil path, by simp⟩
  | (key, value) :: rest, _, hd, h => by
    rw [readEntries] at h
    split at h
    · obtain ⟨hrest, hstarts⟩ := descends_readEntries path rest hd.tail h
      refine ⟨hrest, fun q hq => ?_⟩
      obtain ⟨s, hs, hq⟩ := hstarts q hq
      exact ⟨s, List.mem_cons_of_mem _ hs, hq⟩
    · next hentry =>
      obtain ⟨first, hfirst, h⟩ := Except.bind_eq_ok.mp h
      obtain ⟨others, hothers, h⟩ := Except.bind_eq_ok.mp h
      cases h
      have hdot : '.' ∉ key.toList := hd.dotFree (key, value) List.mem_cons_self
      let s : Segment := ⟨key, hdot⟩
      have hpath : path ++ Path.ofText key = path.child s := by
        rw [show Path.ofText key = .root s from Path.ofText_text (.root s)]
        rfl
      rw [hpath] at hfirst
      obtain ⟨below, hbelow, hdescends⟩ := descends_readEntry (path.child s) value hd.distinct.1
        (hd.below (key, value) List.mem_cons_self (by simpa using hentry)) hfirst
      obtain ⟨hrest, hstarts⟩ := descends_readEntries path rest hd.tail hothers
      have hown : ∀ q ∈ first.map Record.path, path.child s ∈ q :: q.ancestors := by
        rw [hbelow]
        intro q hq
        rcases List.mem_cons.mp hq with rfl | hq
        · exact List.mem_cons_self
        · exact List.mem_cons_of_mem _ (hdescends.under q hq)
      rw [List.map_append]
      refine ⟨?_, fun q hq => ?_⟩
      · rw [hbelow] at hown ⊢
        exact hdescends.child.append hrest
          (disjoint_of_starts (List.nodup_cons.mp hd.nodup).1 hown hstarts)
      · rcases List.mem_append.mp hq with hq | hq
        · exact ⟨s, List.mem_cons_self, hown q hq⟩
        · obtain ⟨t, ht, hq⟩ := hstarts q hq
          exact ⟨t, List.mem_cons_of_mem _ ht, hq⟩

end

theorem descends_read {source : String} {records : List Record}
    (hread : read reserved source = .ok records)
    (hdots : ∀ document root children, Json.read? source = some document →
      document.members?.bind (Json.member? rootKey) = some root →
      HasChildren reserved root children → ∀ m ∈ children, '.' ∉ m.1.toList) :
    ∃ below, records.map Record.path = .ofText rootKey :: below ∧
      (Path.ofText rootKey).DescendsFrom below := by
  unfold read at hread
  split at hread
  · next document hdocument =>
    unfold readDocument at hread
    split at hread
    · cases hread
    · next root hroot =>
      have hdistinct : root.DistinctKeys := by
        obtain ⟨members, hmembers, hlookup⟩ := Option.bind_eq_some_iff.mp hroot
        have hkeys := Json.distinctKeys_of_read? hdocument
        obtain ⟨before, after, rfl, -⟩ := List.lookup_eq_some_iff.mp hlookup
        cases document with
        | object ms =>
          cases hmembers
          exact Json.eachDistinctKeys_iff.mp hkeys.2 (rootKey, root) (by simp)
        | _ => cases hmembers
      split at hread
      · exact descends_readEntry _ _ hdistinct
          (fun children => hdots document _ children hdocument hroot) hread
      · cases hread
  · cases hread

end Definition.Nested

open Definition.Nested

/-- What the nodes of a whole tree are, by their records and the registry they make. -/
structure WholeTree (records : List Record) (r : Registry) : Prop where
  distinct : (records.map Record.path).Nodup
  parentFirst : ∀ before record after, records = before ++ record :: after → before ≠ [] →
    ∃ parent ∈ before, record.path.parent? = some parent.path
  registered : Registry.register (records.map Record.resolve) = pure r
  nodes : r.nodes = records.map Record.resolve
  structural : ∀ p ∈ r.paths, r.structuralParent? p = p.parent?
  explicit : ∀ units, r.units.result = .ok units →
    ∀ u ∈ units, ∀ t ∈ TypeDecl.typesOf u.decl.nested, t.implicit = false
  placed : (∀ record ∈ records.tail, record.path.leaf.text ≠ rootKey) →
    ∀ units, r.units.result = .ok units → (∀ p, .orphanSkipped p ∉ r.units.log) ∧
      (∀ n ∈ r.nodes, ∃ u ∈ units, ∃ t ∈ u.types, t.node = n ∧ t.implicit = false) ∧
      ∀ u ∈ units, u.decl.path ≠ .ofText rootKey → ∃ ref, u.parent = some ref

namespace Path.DescendsFrom

variable {records : List Record} {root : Path} {below : List Path}

theorem nodup_cons (h : root.DescendsFrom below) : (root :: below).Nodup :=
  List.nodup_cons.mpr ⟨fun hmem => not_mem_ancestors_self _ (h.under _ hmem), h.nodup⟩

theorem exists_parent (h : root.DescendsFrom below) {before after : List Path} {q : Path}
    (hsplit : root :: below = before ++ q :: after) (hbefore : before ≠ []) :
    ∃ a ∈ before, q.parent? = some a := by
  cases before with
  | nil => exact absurd rfl hbefore
  | cons p before =>
    obtain ⟨rfl, hbelow⟩ := List.cons.inj hsplit
    exact h.parentFirst before q after hbelow

end Path.DescendsFrom

theorem map_path_resolve (records : List Record) :
    (records.map Record.resolve).map Node.path = records.map Record.path := by
  rw [List.map_map]
  rfl

namespace Registry

variable {r : Registry} {s : Segment} {below : List Path}

theorem closed_of_descendsFrom (hpaths : r.paths = .root s :: below)
    (hbelow : (Path.root s).DescendsFrom below) : r.Closed := by
  intro p hp q hq
  obtain ⟨before, after, hsplit⟩ := List.append_of_mem hp
  rw [hpaths] at hsplit
  by_cases hbefore : before = []
  · subst hbefore
    obtain ⟨rfl, -⟩ := List.cons.inj hsplit
    cases hq
  · obtain ⟨a, ha, hparent⟩ := hbelow.exists_parent hsplit hbefore
    rw [hparent, Option.mem_some_iff] at hq
    rw [hpaths, hsplit, ← hq]
    exact List.mem_append_left _ ha

theorem isRoot_of_descendsFrom {root : Node} {rest : List Node} (hnodes : r.nodes = root :: rest)
    (hbelow : root.path.DescendsFrom (rest.map Node.path))
    (halone : ∀ n ∈ rest, n.path.leaf ≠ root.path.leaf) : r.IsRoot root := by
  have hrest : ∀ n ∈ r.nodes, n ≠ root → n ∈ rest := fun n hn hne =>
    (List.mem_cons.mp (hnodes ▸ hn)).resolve_left hne
  exact ⟨hnodes ▸ List.mem_cons_self,
    fun n hn hne => hbelow.under _ (List.mem_map_of_mem (hrest n hn hne)),
    fun n hn hne => halone n (hrest n hn hne)⟩

end Registry

/-- The records of a document make a whole tree if no name among children holds a dot. -/
theorem Definition.Nested.wholeTree_of_read {reserved : List Attribute} {source : String}
    {records : List Record} (hread : read reserved source = .ok records)
    (hdots : ∀ document root children, Json.read? source = some document →
      document.members?.bind (Json.member? rootKey) = some root →
      HasChildren reserved root children → ∀ m ∈ children, '.' ∉ m.1.toList) :
    ∃ r, WholeTree records r := by
  obtain ⟨below, hpaths, hbelow⟩ := descends_read hread hdots
  have hroot : Path.ofText rootKey = .root ⟨rootKey, by decide⟩ :=
    Path.ofText_text (.root ⟨rootKey, by decide⟩)
  have hdistinct : (records.map Record.path).Nodup := hpaths ▸ hbelow.nodup_cons
  have hresolved : ((records.map Record.resolve).map Node.path).Nodup := by
    rwa [map_path_resolve]
  have hnodes := Registry.nodes_ofNodes hresolved
  have hclosed : (Registry.ofNodes (records.map Record.resolve)).Closed := by
    refine Registry.closed_of_descendsFrom (s := ⟨rootKey, by decide⟩) ?_ (hroot ▸ hbelow)
    rw [Registry.paths, hnodes, map_path_resolve, hpaths, hroot]
  refine ⟨_, hdistinct, ?_, Registry.register_eq hresolved, hnodes,
    fun p hp => hclosed.structuralParent?_eq hp, ?_, ?_⟩
  · rintro before record after rfl hbefore
    rw [List.map_append, List.map_cons] at hpaths
    obtain ⟨_, ha, hparent⟩ := hbelow.exists_parent hpaths.symm (by simpa using hbefore)
    obtain ⟨parent, hmem, rfl⟩ := List.mem_map.mp ha
    exact ⟨parent, hmem, hparent⟩
  · intro units hu u hm t ht
    refine hclosed.explicit hu hm ?_
    rw [TypeUnit.types, TypeDecl.types_eq]
    exact List.mem_cons_of_mem _ ht
  · intro halone units hu
    obtain ⟨root, rest, rfl⟩ : ∃ root rest, records = root :: rest :=
      List.exists_cons_of_ne_nil (by rintro rfl; cases hpaths)
    obtain ⟨hfirst, rfl⟩ := List.cons.inj hpaths
    have hpath : root.resolve.path = .ofText rootKey := hfirst
    have hisRoot := Registry.isRoot_of_descendsFrom hnodes
      (by rwa [map_path_resolve, hpath])
      (fun n hn => by
        obtain ⟨record, hrecord, rfl⟩ := List.mem_map.mp hn
        rw [hpath, hroot]
        exact fun hleaf => halone record hrecord (congrArg Segment.text hleaf))
    rw [← hpath]
    exact hisRoot.placed hclosed hu

namespace Definition.Nested

def rowsJson : String :=
  "\x7b\"Vehicle\": \x7b\"type\": \"branch\", \"children\": \x7b\"unit\": \"m.s\", " ++
    "\"Row\": \x7b\"type\": \"branch\", \"children\": \x7b\"Row\": \x7b\"type\": \"sensor\"\x7d\x7d\x7d\x7d\x7d\x7d"

def rowsMembers : List (String × Json) := [
  ("type", .string "branch"),
  ("children", .object [
    ("unit", .string "m.s"),
    ("Row", .object [
      ("type", .string "branch"),
      ("children", .object [("Row", .object [("type", .string "sensor")])])])])]

theorem read?_rowsJson :
    Json.read? rowsJson = some (.object [("Vehicle", .object rowsMembers)]) := by
  cbv

theorem dotFree_rowsMembers : DotFree Attribute.all (.object rowsMembers) := by
  refine dotFree_of_children rfl (by decide) ?_
  simp only [List.forall_mem_cons, List.not_mem_nil, false_imp_iff, implies_true, and_true]
  refine ⟨fun h => absurd h (by decide), fun _ => dotFree_of_children rfl (by decide) ?_⟩
  simp only [List.forall_mem_cons, List.not_mem_nil, false_imp_iff, implies_true, and_true]
  exact fun _ => dotFree_of_leaf rfl

theorem wholeTree_rowsJson : ∃ records, read Attribute.all rowsJson = .ok records ∧
    records.map (·.path.text) = ["Vehicle", "Vehicle.Row", "Vehicle.Row.Row"] ∧
    ∃ r, WholeTree records r := by
  have hpaths : (read Attribute.all rowsJson).map (·.map (·.path.text)) =
      .ok ["Vehicle", "Vehicle.Row", "Vehicle.Row.Row"] := by
    rw [read, read?_rowsJson]
    decide +kernel
  cases hread : read Attribute.all rowsJson with
  | error defect => simp [hread, Except.map] at hpaths
  | ok records =>
    refine ⟨records, rfl, by simpa [hread, Except.map] using hpaths, wholeTree_of_read hread ?_⟩
    intro document root children hdocument hroot hchildren
    rw [read?_rowsJson] at hdocument
    cases hdocument
    cases hroot
    exact dotFree_rowsMembers children hchildren

end Definition.Nested

end SignalTree
