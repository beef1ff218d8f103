import SignalTree.Proofs.NamesApart
import SignalTree.Proofs.SamePaths

/-!
A node with other properties at the same path. The types of a registry keep their places,
names and children, and only the type of that node says something else (`units_of_revised`).
So at most one file of a module changes: the one that type is declared in (`revised`).
-/
namespace SignalTree

def Node.revise (n m : Node) : Node := if m.path = n.path then n else m

@[simp] theorem Node.path_revise (n m : Node) : (n.revise m).path = m.path := by
  unfold revise
  split
  · next h => exact h.symm
  · rfl

namespace TypeDecl

mutual

/-- The type with `n` for the node at its path, there and in all types below. -/
def revise (n : Node) (d : TypeDecl) : TypeDecl :=
  match d with
  | ⟨name, node, children, nested, implicit⟩ =>
    ⟨name, n.revise node, children, reviseAll n nested, implicit⟩

def reviseAll (n : Node) : List TypeDecl → List TypeDecl
  | [] => []
  | d :: rest => d.revise n :: reviseAll n rest

end

variable {n : Node}

theorem reviseAll_eq_map (ds : List TypeDecl) : reviseAll n ds = ds.map (·.revise n) := by
  induction ds with
  | nil => simp [reviseAll]
  | cons d ds ih => simp [reviseAll, ih]

theorem revise_eq (d : TypeDecl) :
    d.revise n = ⟨d.name, n.revise d.node, d.children, d.nested.map (·.revise n), d.implicit⟩ := by
  cases d
  rw [revise, reviseAll_eq_map]

@[simp] theorem name_revise (d : TypeDecl) : (d.revise n).name = d.name := by rw [revise_eq]

@[simp] theorem path_revise (d : TypeDecl) : (d.revise n).path = d.path := by
  rw [revise_eq]
  exact n.path_revise d.node

mutual

/-- A type without a type for the path of `n` stays as it is. -/
theorem revise_of_forall_ne (d : TypeDecl) (h : ∀ t ∈ d.types, t.path ≠ n.path) :
    d.revise n = d := by
  match d with
  | ⟨name, node, children, nested, implicit⟩ =>
    obtain ⟨hself, hnested⟩ := List.forall_mem_cons.mp h
    have hnode : n.revise node = node := if_neg hself
    rw [revise, reviseAll_of_forall_ne nested hnested, hnode]

theorem reviseAll_of_forall_ne (ds : List TypeDecl)
    (h : ∀ t ∈ typesOf ds, t.path ≠ n.path) : reviseAll n ds = ds := by
  match ds with
  | [] => rw [reviseAll]
  | d :: rest =>
    obtain ⟨hd, hrest⟩ := List.forall_mem_append.mp h
    rw [reviseAll, revise_of_forall_ne d hd, reviseAll_of_forall_ne rest hrest]

end

end TypeDecl

namespace TypeUnit

variable {n : Node}

def revise (n : Node) (u : TypeUnit) : TypeUnit := ⟨u.decl.revise n, u.parent⟩

theorem map_revise_of_forall_ne {units : List TypeUnit}
    (h : ∀ u ∈ units, ∀ t ∈ u.types, t.path ≠ n.path) : units.map (·.revise n) = units := by
  refine (List.map_congr_left fun u hu => ?_).trans (List.map_id units)
  rw [revise, TypeDecl.revise_of_forall_ne u.decl (h u hu)]
  rfl

end TypeUnit

/-! The checks and the index do not look at nodes. -/

namespace Source

variable {n : Node}

mutual

theorem checkDecl_revise (types : Claims) (d : TypeDecl) :
    checkDecl types (d.revise n) = checkDecl types d := by
  match d with
  | ⟨name, node, children, nested, implicit⟩ =>
    have hfields :
        checkFields ⟨name, n.revise node, children, TypeDecl.reviseAll n nested, implicit⟩ =
          checkFields ⟨name, node, children, nested, implicit⟩ := by
      rw [checkFields, checkFields, TypeDecl.path, Node.path_revise, TypeDecl.path]
    rw [TypeDecl.revise, checkDecl, checkDecl, hfields, checkNested_reviseAll types [] nested]

theorem checkNested_reviseAll (types modules : Claims) (ds : List TypeDecl) :
    checkNested types modules (TypeDecl.reviseAll n ds) = checkNested types modules ds := by
  match ds with
  | [] => rw [TypeDecl.reviseAll]
  | d :: rest =>
    have hempty : (d.revise n).nested.isEmpty = d.nested.isEmpty := by
      rw [TypeDecl.revise_eq, List.isEmpty_map]
    rw [TypeDecl.reviseAll, checkNested, checkNested, TypeDecl.name_revise, TypeDecl.path_revise,
      hempty]
    simp only [checkDecl_revise [] d, checkNested_reviseAll _ _ rest]

end

theorem checkUnit_revise (u : TypeUnit) : checkUnit (u.revise n) = checkUnit u := by
  rw [checkUnit, checkUnit, TypeUnit.revise, checkDecl_revise, TypeDecl.name_revise,
    TypeDecl.path_revise]

theorem unitFile_revise (u : TypeUnit) : unitFile (u.revise n) = unitFile u := by
  rw [unitFile, unitFile, TypeUnit.revise, TypeDecl.name_revise]

theorem renderIndex_revise (units : List TypeUnit) (module : String) :
    renderIndex (units.map (·.revise n)) module = renderIndex units module := by
  have hnames : (units.map (·.revise n)).map (·.decl.name) = units.map (·.decl.name) := by
    rw [List.map_map]
    exact List.map_congr_left fun u _ => u.decl.name_revise
  rw [renderIndex, renderIndex, hnames]

end Source

namespace Hierarchy

variable {h h' : Hierarchy} {n : Node}

structure Revised (n : Node) (h h' : Hierarchy) : Prop extends SamePaths h h' where
  mem : n.path ∈ h.registry.paths
  nodes : h'.registry.nodes = h.registry.nodes.map n.revise

theorem keys_eq_paths (scope : Path) : h.keys scope =
    ((h.registry.paths.filter fun p => decide (h.registry.structuralParent? p = some scope) ||
      !h.isTopLevel p && decide (scope ∈ h.registry.gap p)).map (h.slotPath scope)).eraseDups := by
  rw [keys, exposed, Registry.paths, List.filter_map, List.map_map]
  rfl

theorem declAt_eq (p : Path) : h.declAt p = ⟨p.typeName, h.nodeAt p, (h.keys p).map h.refAt,
    (h.nestedKeys p).map h.declAt, !h.registry.contains p⟩ := by
  rw [← declAt_children, ← declAt_nested]
  rfl

namespace Revised

variable (hr : Revised n h h')

include hr

theorem paths_eq : h'.registry.paths = h.registry.paths := by
  rw [Registry.paths, hr.nodes, List.map_map, Registry.paths]
  exact List.map_congr_left fun m _ => n.path_revise m

theorem nodeAt_eq (p : Path) : h'.nodeAt p = n.revise (h.nodeAt p) := by
  by_cases hp : p ∈ h.registry.paths
  · obtain ⟨m, hm, rfl⟩ := mem_paths.mp hp
    have hm' : n.revise m ∈ h'.registry.nodes := hr.nodes ▸ List.mem_map_of_mem hm
    have hnode := nodeAt_of_mem hm'
    rw [Node.path_revise] at hnode
    rw [hnode, nodeAt_of_mem hm]
  · have hne : p ≠ n.path := fun heq => hp (heq ▸ hr.mem)
    have hbranch : n.revise (.plainBranch p) = .plainBranch p := if_neg hne
    rw [nodeAt_of_not_mem hp, nodeAt_of_not_mem (hr.paths_eq ▸ hp), hbranch]

theorem keys_eq (scope : Path) : h'.keys scope = h.keys scope := by
  have hslot : h'.slotPath scope = h.slotPath scope := by
    funext p
    rw [slotPath, slotPath, hr.isTopLevel_eq]
  simp only [keys_eq_paths, hr.paths_eq, hslot, hr.isTopLevel_eq, hr.structuralParent?_eq,
    hr.gap_eq]

theorem nestedKeys_eq (scope : Path) : h'.nestedKeys scope = h.nestedKeys scope := by
  rw [nestedKeys, nestedKeys, hr.keys_eq, hr.isUnit_eq]

theorem declAt_eq (p : Path) : h'.declAt p = (h.declAt p).revise n := by
  induction hl : h.registry.depth - p.depth using Nat.strong_induction_on generalizing p with
  | _ levels ih =>
    have hnested : (h.nestedKeys p).map h'.declAt =
        ((h.nestedKeys p).map h.declAt).map (·.revise n) := by
      rw [List.map_map]
      refine List.map_congr_left fun k hk => ?_
      have hdepth := Path.depth_of_parent?_eq (Hierarchy.mem_nestedKeys_iff.mp hk).1
      have hbound := depth_lt_of_mem_keys (List.mem_of_mem_filter hk)
      exact ih (h.registry.depth - k.depth) (by omega) k rfl
    rw [Hierarchy.declAt_eq, Hierarchy.declAt_eq, TypeDecl.revise_eq, hr.nodeAt_eq, hr.keys_eq,
      hr.nestedKeys_eq, hnested, hr.refAt_eq, hr.contains_eq]

theorem unit_eq {m : Node} (hm : m ∈ h.registry.nodes) :
    h'.unit (n.revise m) = (h.unit m).revise n := by
  have hm' : n.revise m ∈ h'.registry.nodes := hr.nodes ▸ List.mem_map_of_mem hm
  have hdecl : (h'.unit (n.revise m)).decl = ((h.unit m).revise n).decl := by
    rw [unit_decl hm', Node.path_revise, hr.declAt_eq, TypeUnit.revise, unit_decl hm]
  have hparent : (h'.unit (n.revise m)).parent = ((h.unit m).revise n).parent := by
    change h'.parentRef? (n.revise m).path = h.parentRef? m.path
    rw [Node.path_revise, hr.parentRef?_eq]
  exact congrArg₂ TypeUnit.mk hdecl hparent

end Revised

/-- The path of the unit that the type of a node is declared in: the path of the node itself, or
of its owner where it shares its leaf. -/
def home? (h : Hierarchy) (p : Path) : Option Path := if h.isTopLevel p then some p else h.owner? p

end Hierarchy

def DifferIn (file : SourceFile) (files files' : List SourceFile) : Prop :=
  ∃ pre post contents, files = pre ++ file :: post ∧ files' = pre ++ ⟨file.name, contents⟩ :: post

namespace Registry

variable {r r' : Registry} {n : Node} {units units' : List TypeUnit}

theorem nodes_of_replaced {before after : List Node} {n n' : Node}
    (hr : r.nodes = before ++ n :: after) (hr' : r'.nodes = before ++ n' :: after)
    (hpath : n'.path = n.path) : r'.nodes = r.nodes.map n'.revise := by
  have hnodup : ((n :: (before ++ after)).map Node.path).Nodup :=
    (List.perm_middle.map Node.path).nodup_iff.mp (hr ▸ r.nodup)
  have hothers : ∀ m ∈ before ++ after, n'.revise m = m := by
    refine fun m hm => if_neg fun heq => (List.nodup_cons.mp hnodup).1 ?_
    rw [← hpath, ← heq]
    exact List.mem_map_of_mem hm
  have hself : n'.revise n = n' := if_pos hpath.symm
  obtain ⟨hbefore, hafter⟩ := List.forall_mem_append.mp hothers
  rw [hr, hr', List.map_append, List.map_cons, hself, List.map_congr_left hbefore,
    List.map_congr_left hafter, List.map_id', List.map_id']

theorem hierarchy_revised (hmem : n.path ∈ r.paths) (hnodes : r'.nodes = r.nodes.map n.revise) :
    (Hierarchy.ofRegistry r).Revised n (Hierarchy.ofRegistry r') where
  toSamePaths := by
    refine Hierarchy.samePaths_of_perm (.of_eq ?_)
    rw [paths, paths, hnodes, List.map_map]
    exact List.map_congr_left fun m _ => (n.path_revise m).symm
  mem := hmem
  nodes := hnodes

theorem units_of_revised (hr : (Hierarchy.ofRegistry r).Revised n (Hierarchy.ofRegistry r'))
    (hu : r.units.result = .ok units) (hu' : r'.units.result = .ok units') :
    units' = units.map (·.revise n) := by
  have htop : r'.nodes.filter (fun m => (Hierarchy.ofRegistry r').isTopLevel m.path) =
      (r.nodes.filter fun m => (Hierarchy.ofRegistry r).isTopLevel m.path).map n.revise := by
    have hnodes : r'.nodes = r.nodes.map n.revise := hr.nodes
    simp only [hnodes, List.filter_map, Function.comp_def, Node.path_revise, hr.isTopLevel_eq]
  rw [(units_eq_ok hu').1, (units_eq_ok hu).1, htop, List.map_map, List.map_map]
  exact List.map_congr_left fun m hm => hr.unit_eq (List.mem_of_mem_filter hm)

theorem home?_of_mem_types (hu : r.units.result = .ok units) {u : TypeUnit} (hm : u ∈ units)
    {t : TypeDecl} (ht : t ∈ u.types) (hp : t.path ∈ r.paths) :
    (Hierarchy.ofRegistry r).home? t.path = some u.decl.path := by
  obtain ⟨q, hq, rfl⟩ := (mem_types_of_mem_units hu hm).mp ht
  rw [Hierarchy.path_declAt] at hp ⊢
  rw [Hierarchy.home?]
  rcases hq with hq | ⟨hnest, ho⟩
  · have hunit := (exists_declAt_of_mem_units hu hm).1
    rw [← hq] at hunit ⊢
    rw [if_pos (Hierarchy.isUnit_iff.mp hunit).2]
  · obtain ⟨m, hm, rfl⟩ := List.mem_map.mp hp
    have htop := (Hierarchy.isNested_iff_of_mem (h := Hierarchy.ofRegistry r) hm).mp hnest
    rw [htop, if_neg (by simp), ho]

/-- No two units have a type for one path, so one of them changes at most. -/
theorem map_revise_units (hu : r.units.result = .ok units) (n : Node) :
    units.map (·.revise n) = units ∨
      ∃ pre u post, units = pre ++ u :: post ∧ (∃ t ∈ u.types, t.path = n.path) ∧
        units.map (·.revise n) = pre ++ u.revise n :: post := by
  by_cases hnone : ∀ u ∈ units, ∀ t ∈ u.types, t.path ≠ n.path
  · exact .inl (TypeUnit.map_revise_of_forall_ne hnone)
  · simp only [not_forall, not_not] at hnone
    obtain ⟨u, hm, t, ht, hpath⟩ := hnone
    obtain ⟨pre, post, rfl⟩ := List.append_of_mem hm
    have hnodup : (((u :: (pre ++ post)).flatMap TypeUnit.types).map TypeDecl.path).Nodup :=
      ((List.perm_middle.flatMap_right _).map _).nodup_iff.mp (nodup_type_paths hu)
    rw [List.flatMap_cons, List.map_append, List.nodup_append'] at hnodup
    have hothers : ∀ v ∈ pre ++ post, ∀ t' ∈ v.types, t'.path ≠ n.path := by
      intro v hv t' ht' heq
      refine hnodup.2.2 (List.mem_map_of_mem ht) ?_
      rw [hpath, ← heq]
      exact List.mem_map_of_mem (List.mem_flatMap.mpr ⟨v, hv, ht'⟩)
    obtain ⟨hpre, hpost⟩ := List.forall_mem_append.mp hothers
    refine .inr ⟨pre, u, post, rfl, ⟨t, ht, hpath⟩, ?_⟩
    rw [List.map_append, List.map_cons, TypeUnit.map_revise_of_forall_ne hpre,
      TypeUnit.map_revise_of_forall_ne hpost]

theorem renders_revised_iff (hu : r.units.result = .ok units)
    (hu' : r'.units.result = .ok (units.map (·.revise n))) (module : String) :
    (∃ files, (Source.renderModule units module).result = .ok files) ↔
      ∃ files, (Source.renderModule (units.map (·.revise n)) module).result = .ok files := by
  rw [Source.renderModule_isOk_iff module fun u hm =>
      (isNamed_of_mem_units hu hm).types _ (TypeDecl.self_mem_types _),
    Source.renderModule_isOk_iff module fun u hm =>
      (isNamed_of_mem_units hu' hm).types _ (TypeDecl.self_mem_types _)]
  have hmodules : ((units.map (·.revise n)).map fun u => moduleName u.decl.name) =
      units.map fun u => moduleName u.decl.name := by
    rw [List.map_map]
    exact List.map_congr_left fun u _ => congrArg moduleName u.decl.name_revise
  rw [hmodules, List.forall_mem_map]
  simp only [Source.checkUnit_revise]

theorem files_of_revised (hu : r.units.result = .ok units) (hmem : n.path ∈ r.paths)
    {module : String} {files files' : List SourceFile}
    (hf : (Source.renderModule units module).result = .ok files)
    (hf' : (Source.renderModule (units.map (·.revise n)) module).result = .ok files') :
    files' = files ∨ ∃ u ∈ units, (Hierarchy.ofRegistry r).home? n.path = some u.decl.path ∧
      DifferIn (Source.fileOf u) files files' := by
  obtain ⟨rfl, -⟩ := Source.renderModule_eq_ok hf
  obtain ⟨rfl, -⟩ := Source.renderModule_eq_ok hf'
  rw [Source.renderIndex_revise]
  rcases map_revise_units hu n with heq | ⟨pre, u, post, hsplit, ⟨t, ht, hpath⟩, heq⟩
  · exact .inl (by rw [heq])
  · have hm : u ∈ units := hsplit ▸ List.mem_append_right pre List.mem_cons_self
    refine .inr ⟨u, hm, hpath ▸ home?_of_mem_types hu hm ht (hpath ▸ hmem), pre.map Source.fileOf,
      post.map Source.fileOf ++ [Source.renderIndex units module],
      (Source.fileOf (u.revise n)).contents, ?_, ?_⟩
    · rw [hsplit, List.map_append, List.map_cons, List.append_assoc, List.cons_append]
    · rw [heq, List.map_append, List.map_cons, List.append_assoc, List.cons_append,
        Source.fileOf, Source.unitFile_revise]
      rfl

/-- Other properties of one node stay with its type: there are units for both registries or for
neither, with the same names, children, nested types and parents, and a module is rendered from
both or from neither, with the same contents of all files but the one of the node's home. -/
theorem revised {before after : List Node} {n n' : Node} (hr : r.nodes = before ++ n :: after)
    (hr' : r'.nodes = before ++ n' :: after) (hpath : n'.path = n.path) :
    ((∃ units, r.units.result = .ok units) ↔ ∃ units', r'.units.result = .ok units') ∧
      ∀ units units', r.units.result = .ok units → r'.units.result = .ok units' →
        units' = units.map (·.revise n') ∧
          ∀ module, ((∃ files, (Source.renderModule units module).result = .ok files) ↔
              ∃ files', (Source.renderModule units' module).result = .ok files') ∧
            ∀ files files', (Source.renderModule units module).result = .ok files →
              (Source.renderModule units' module).result = .ok files' →
              files' = files ∨
                ∃ u ∈ units, (Hierarchy.ofRegistry r).home? n.path = some u.decl.path ∧
                  DifferIn (Source.fileOf u) files files' := by
  have hmem : n'.path ∈ r.paths := by
    rw [hpath]
    exact List.mem_map_of_mem (hr ▸ List.mem_append_right before List.mem_cons_self)
  have hrevised := hierarchy_revised hmem (nodes_of_replaced hr hr' hpath)
  refine ⟨units_isOk_iff_of_paths hrevised.paths, fun units units' hu hu' => ?_⟩
  obtain rfl := units_of_revised hrevised hu hu'
  refine ⟨rfl, fun module => ⟨renders_revised_iff hu hu' module, fun files files' hf hf' => ?_⟩⟩
  exact hpath ▸ files_of_revised hu hmem hf hf'

def numberedRow : Node :=
  ⟨.ofText "Vehicle.Cabin.Door.Row", (Properties.new "" "sensor").withDatatype "int8"⟩

def numberedSample : Registry := .ofNodes (sample.nodes.map numberedRow.revise)

theorem revised_numberedSample : ∃ units files files',
    sample.units.result = .ok units ∧
      numberedSample.units.result = .ok (units.map (·.revise numberedRow)) ∧
      (Source.renderModule units "vss").result = .ok files ∧
      (Source.renderModule (units.map (·.revise numberedRow)) "vss").result = .ok files' ∧
      (files' = files ∨ ∃ u ∈ units, u.decl.path = .ofText "Vehicle.Cabin.Door" ∧
        DifferIn (Source.fileOf u) files files') := by
  have hsample : sample.nodes = sample.nodes.take 3 ++
      .plainBranch (.ofText "Vehicle.Cabin.Door.Row") :: sample.nodes.drop 4 := by
    decide +kernel
  have hnumbered : numberedSample.nodes =
      sample.nodes.take 3 ++ numberedRow :: sample.nodes.drop 4 := by
    decide +kernel
  obtain ⟨hunits, hrest⟩ := revised hsample hnumbered rfl
  have hok : sample.units.result.toOption.any (fun units =>
      (Source.renderModule units "vss").result.isOk && true) = true := by
    decide +kernel
  obtain ⟨units, files, hu, hf, -⟩ := Source.exists_rendered hok
  obtain ⟨units', hu'⟩ := hunits.mp ⟨units, hu⟩
  obtain ⟨rfl, hmodules⟩ := hrest units units' hu hu'
  obtain ⟨hrenders, hfiles⟩ := hmodules "vss"
  obtain ⟨files', hf'⟩ := hrenders.mp ⟨files, hf⟩
  refine ⟨units, files, files', hu, hu', hf, hf', (hfiles files files' hf hf').imp_right ?_⟩
  have hhome : (Hierarchy.ofRegistry sample).home? (.ofText "Vehicle.Cabin.Door.Row") =
      some (.ofText "Vehicle.Cabin.Door") := by
    decide +kernel
  rintro ⟨u, hm, hhome', hdiffer⟩
  exact ⟨u, hm, Option.some.inj (hhome'.symm.trans hhome), hdiffer⟩

end Registry

end SignalTree
