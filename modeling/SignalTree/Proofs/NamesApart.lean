import SignalTree.Proofs.ModuleTree
import SignalTree.Proofs.NamedPaths

/-!
What the checks of a module ask for, type by type. A unit is accepted if each of its types
keeps the names apart that it gives, a module if all its units are accepted and their modules
have names of their own. The order of types plays no part in that.
-/
namespace SignalTree.Source

/-- The names that a type gives to its fields, and to the types and modules in it, do not
meet. -/
structure NamesApart (d : TypeDecl) : Prop where
  fields : FieldsDistinct d
  types : (d.nested.map TypeDecl.name).Nodup
  modules : (moduleNames d.nested).Nodup

theorem namesApart_iff {d : TypeDecl} : NamesApart d ↔
    FieldsDistinct d ∧ (d.nested.map TypeDecl.name).Nodup ∧ (moduleNames d.nested).Nodup :=
  ⟨fun h => ⟨h.fields, h.types, h.modules⟩, fun h => ⟨h.1, h.2.1, h.2.2⟩⟩

mutual

theorem eachDistinct_iff_namesApart (depth : Nat) (parent : TypePath) (d : TypeDecl)
    (hd : ∀ t ∈ d.types, IsTypeName t.name) :
    Item.EachDistinct (nestedItems depth parent d) ↔ ∀ t ∈ d.types, NamesApart t := by
  match d with
  | ⟨name, node, children, nested, implicit⟩ =>
    have hnested : ∀ t ∈ TypeDecl.typesOf nested, IsTypeName t.name :=
      fun t ht => hd t (List.mem_cons_of_mem _ ht)
    have hnames : ∀ t ∈ nested, IsTypeName t.name := fun t ht =>
      hnested t (TypeDecl.mem_typesOf.mpr ⟨t, ht, t.self_mem_types⟩)
    rw [eachDistinct_nestedItems, allDistinct_nestedItemsOf hnames, fresh_nothing, fresh_nothing,
      eachDistinct_all_iff_namesApart _ _ nested hnested, TypeDecl.types_eq, List.forall_mem_cons,
      namesApart_iff]
    simp only [and_assoc]

/-- Items keep apart at every depth if the types they come from do. -/
theorem eachDistinct_all_iff_namesApart (depth : Nat) (parent : TypePath) (ds : List TypeDecl)
    (hds : ∀ t ∈ TypeDecl.typesOf ds, IsTypeName t.name) :
    Item.EachDistinct (nestedItemsOf depth parent ds) ↔
      ∀ t ∈ TypeDecl.typesOf ds, NamesApart t := by
  match ds with
  | [] => simp [nestedItemsOf, Item.EachDistinct, TypeDecl.typesOf]
  | d :: rest =>
    rw [nestedItemsOf, Item.eachDistinct_append, TypeDecl.typesOf, List.forall_mem_append,
      eachDistinct_iff_namesApart depth parent d fun t ht => hds t (List.mem_append_left _ ht),
      eachDistinct_all_iff_namesApart depth parent rest fun t ht =>
        hds t (List.mem_append_right _ ht)]

end

theorem checkUnit_isOk_iff {u : TypeUnit} (hu : ∀ t ∈ u.types, IsTypeName t.name) :
    (∃ x, checkUnit u = .ok x) ↔
      (∀ t ∈ u.types, NamesApart t) ∧ u.decl.name ∉ u.decl.nested.map TypeDecl.name := by
  have hself : IsTypeName u.decl.name := hu _ (TypeDecl.self_mem_types _)
  have hnested : ∀ t ∈ TypeDecl.typesOf u.decl.nested, IsTypeName t.name := by
    intro t ht
    refine hu t ?_
    rw [TypeUnit.types, TypeDecl.types_eq]
    exact List.mem_cons_of_mem _ ht
  have hnames : ∀ t ∈ u.decl.nested, IsTypeName t.name := fun t ht =>
    hnested t (TypeDecl.mem_typesOf.mpr ⟨t, ht, t.self_mem_types⟩)
  have hname : (Item.struct (structItem true 1 (u.parent.map parentPath) u.decl)).name =
      u.decl.name := rfl
  rw [(decides_checkUnit hu).ok_iff, TypeUnit.types, TypeDecl.types_eq, List.forall_mem_cons,
    namesApart_iff, Item.AllDistinct, unitItems, List.map_cons, List.nodup_cons, hname,
    mem_names_nestedItemsOf hself, nodup_names_nestedItemsOf hnames, Item.EachDistinct,
    distinct_struct, eachDistinct_all_iff_namesApart _ _ _ hnested]
  tauto

theorem checkUnit_of_namesApart {u : TypeUnit}
    (hu : ∀ t ∈ u.types, NamesApart t ∧ IsTypeName t.name)
    (hself : u.decl.name ∉ u.decl.nested.map TypeDecl.name) : ∃ x, checkUnit u = .ok x :=
  (checkUnit_isOk_iff fun t ht => (hu t ht).2).mpr ⟨fun t ht => (hu t ht).1, hself⟩

theorem mapM_renderUnit_of_ok {units : List TypeUnit}
    (h : ∀ u ∈ units, ∃ x, checkUnit u = .ok x) :
    (units.mapM renderUnit).result = .ok (units.map fileOf) := by
  induction units with
  | nil => rfl
  | cons u units ih =>
    obtain ⟨hu, hunits⟩ := List.forall_mem_cons.mp h
    rw [List.mapM_cons, Outcome.result_bind_of_ok (renderUnit_eq_ok.mpr ⟨hu, rfl⟩),
      Outcome.result_bind_of_ok (ih hunits)]
    rfl

theorem unitFile_ne_indexFile {u : TypeUnit} (hu : IsTypeName u.decl.name) :
    unitFile u ≠ indexFile := by
  intro heq
  obtain ⟨rest, hrest⟩ := List.head?_eq_some_iff.mp hu.head?_moduleName
  have hhead : (unitFile u).toList.head? = some 'v' := by
    rw [unitFile, String.toList_append, hrest]
    rfl
  rw [heq] at hhead
  revert hhead
  decide +kernel

theorem nodup_fileNames_iff {units : List TypeUnit} {module : String}
    (hnames : ∀ u ∈ units, IsTypeName u.decl.name) :
    ((units.map fileOf ++ [renderIndex units module]).map SourceFile.name).Nodup ↔
      (units.map fun u => moduleName u.decl.name).Nodup := by
  have hinjective : Function.Injective (· ++ ".rs") := fun a b h => (String.append_left_inj ".rs").mp h
  have hfiles : (units.map fileOf).map SourceFile.name =
      (units.map fun u => moduleName u.decl.name).map (· ++ ".rs") := by
    rw [List.map_map, List.map_map]
    rfl
  have hindex : [renderIndex units module].map SourceFile.name = [indexFile] := rfl
  rw [List.map_append, hfiles, hindex, List.nodup_append', List.nodup_map_iff hinjective]
  refine and_iff_left_of_imp fun _ => ⟨List.nodup_singleton _, ?_⟩
  rw [List.disjoint_singleton, List.map_map]
  intro hmem
  obtain ⟨u, hu, heq⟩ := List.mem_map.mp hmem
  exact unitFile_ne_indexFile (hnames u hu) heq

theorem renderModule_of_ok {units : List TypeUnit} (module : String)
    (hnames : ∀ u ∈ units, IsTypeName u.decl.name)
    (hcheck : ∀ u ∈ units, ∃ x, checkUnit u = .ok x)
    (hmodules : (units.map fun u => moduleName u.decl.name).Nodup) :
    (renderModule units module).result = .ok (units.map fileOf ++ [renderIndex units module]) := by
  rw [renderModule, Outcome.result_bind_of_ok (mapM_renderUnit_of_ok hcheck),
    Outcome.result_bind_of_ok
      ((requireDistinct_eq_ok (x := ⟨⟩)).mpr ((nodup_fileNames_iff hnames).mpr hmodules))]
  rfl

/-- A module is rendered if its units are accepted and their modules have names of their own. -/
theorem renderModule_isOk_iff {units : List TypeUnit} (module : String)
    (hnames : ∀ u ∈ units, IsTypeName u.decl.name) :
    (∃ files, (renderModule units module).result = .ok files) ↔
      (∀ u ∈ units, ∃ x, checkUnit u = .ok x) ∧
        (units.map fun u => moduleName u.decl.name).Nodup := by
  constructor
  · rintro ⟨files, hfiles⟩
    obtain ⟨rfl, hcheck, hnodup⟩ := renderModule_eq_ok hfiles
    exact ⟨hcheck, (nodup_fileNames_iff hnames).mp hnodup⟩
  · rintro ⟨hcheck, hmodules⟩
    exact ⟨_, renderModule_of_ok module hnames hcheck hmodules⟩

end SignalTree.Source
