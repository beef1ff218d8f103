import SignalTree.Proofs.ModuleTree
import SignalTree.Proofs.Quote
import SignalTree.Proofs.Reference

/-!
Every path in a generated module means one struct, and the right one. A path to a child
means the struct that has the child's path, and a path to a parent the struct that has
this one as a child (`Registry.resolves`). A path with line feeds can put more into the
header of a file than comments, such as another struct (`child_means_two_structs`).
-/
namespace SignalTree.Source

open Text.Literal (quote)

def Declared.IsIn (s : Declared) (root : List Decl) : Prop := s ∈ structsAt root s.location s.name

/-- A field is named for a child and means the struct with the child's path. -/
def IsChildField (root : List Decl) (loc : Location) (c : ChildRef) (f : Field) : Prop :=
  f.name = fieldName c.path ∧
    ∃ s, resolve root loc f.type = [s] ∧ s.paths root = [quote c.path.text]

namespace ModuleTree

/-- A struct is that of a type. It has a field for its value, of a type from elsewhere, and
one for every child. -/
structure StructResolves (tree : ModuleTree) (s : Declared) (t : TypeDecl) : Prop where
  name : s.name = t.name
  path : s.paths tree.decls = [quote t.path.text]
  self : resolve tree.decls s.location ⟨[], s.name⟩ = [s]
  fields : ∃ value fields, s.fields = value :: fields ∧ value.name = valueField ∧
    resolve tree.decls s.location value.type = [] ∧
    List.Forall₂ (IsChildField tree.decls s.location) t.children fields

/-- The paths of an implementation mean a struct, traits of the index and the struct that
has a field with this one. -/
structure ImplResolves (tree : ModuleTree) (loc : Location) (i : Impl) (s : Declared) : Prop where
  subject : resolve tree.decls loc ⟨[], i.type⟩ = [s]
  traits : ∀ p ∈ i.trait.toList ++ i.views,
    p = ⟨[], "Default"⟩ ∨ p.name ∈ tree.traits ∧ walk loc p.modules = some []
  parents : ∀ p ∈ i.parents, ∃ owner, resolve tree.decls loc p = [owner] ∧
    ∀ o : Declared, o.IsIn tree.decls →
      ((∃ f ∈ o.fields, resolve tree.decls o.location f.type = [s]) ↔ o = owner)

/-- All paths mean what the types of the units say. -/
structure Resolves (tree : ModuleTree) (units : List TypeUnit) : Prop where
  struct : ∀ s : Declared, s.IsIn tree.decls →
    ∃ t ∈ units.flatMap TypeUnit.types, tree.StructResolves s t
  unique : ∀ s s' : Declared, s.IsIn tree.decls → s'.IsIn tree.decls →
    s.paths tree.decls = s'.paths tree.decls → s = s'
  complete : ∀ t ∈ units.flatMap TypeUnit.types, ∃ s : Declared, s.IsIn tree.decls ∧
    s.paths tree.decls = [quote t.path.text]
  impl : ∀ loc, ∀ decls ∈ scopesAt loc tree.decls, ∀ i, .impl i ∈ decls →
    ∃ s, tree.ImplResolves loc i s
  exports : List.Forall₂ (fun u p => ∃ s, resolve tree.decls [] p = [s] ∧
    s.paths tree.decls = [quote u.decl.path.text]) units tree.exports

variable {tree : ModuleTree}

theorem length_structs_le {m : String × List Outline} (hm : m ∈ tree.modules) (name : String) :
    ((Outline.declsOf m.2).flatMap (Decl.structs name)).length ≤
      (structsAt tree.decls [m.1] name).length := by
  have hscope : Outline.declsOf m.2 ∈ scopesAt [m.1] tree.decls := by
    rw [scopesAt_singleton]
    exact List.mem_flatMap.mpr ⟨_, List.mem_map_of_mem hm, by simp [Decl.inside]⟩
  have hsublist := List.sublist_flatten_of_mem (List.mem_map_of_mem (f := fun decls =>
    (decls.flatMap (Decl.structs name)).map (Declared.mk [m.1] name)) hscope)
  rw [← List.length_map]
  exact hsublist.length_le

/-- No module of a tree in which all paths resolve declares a struct twice. -/
theorem Resolves.length_structsAt_le {units : List TypeUnit} (h : tree.Resolves units)
    (loc : Location) (name : String) : (structsAt tree.decls loc name).length ≤ 1 := by
  cases hs : structsAt tree.decls loc name with
  | nil => simp
  | cons s rest =>
    have hmem : s ∈ structsAt tree.decls loc name := hs ▸ List.mem_cons_self
    obtain ⟨rfl, rfl⟩ : s.location = loc ∧ s.name = name := by
      obtain ⟨decls, -, hmem⟩ := List.mem_flatMap.mp hmem
      obtain ⟨fields, -, rfl⟩ := List.mem_map.mp hmem
      exact ⟨rfl, rfl⟩
    obtain ⟨t, -, hresolves⟩ := h.struct s hmem
    have hself : structsAt tree.decls s.location s.name = [s] := hresolves.self
    rw [← hs, hself, List.length_singleton]

end ModuleTree

namespace StructItem

variable {s : StructItem}

theorem struct_mem_decls {name : String} {fields : List Field} :
    .struct name fields ∈ s.decls ↔
      name = s.name ∧ fields = ⟨valueField, .ofText s.value.rustType⟩ :: s.fields := by
  cases hp : s.parent <;> simp [decls, hp]

theorem mentions_of_impl_mem_decls {i : Impl} (hi : .impl i ∈ s.decls) :
    i.type = s.name ∧
      (∀ p ∈ i.trait.toList ++ i.views, p = ⟨[], "Default"⟩ ∨
        ∃ trait ∈ [nodeTrait, childTrait], p = s.traitPath trait) ∧
      ∀ p ∈ i.parents, s.parent = some p := by
  rw [decls, List.mem_append] at hi
  rcases hi with hi | hi
  · simp only [List.mem_cons, reduceCtorEq, Decl.impl.injEq, false_or, List.not_mem_nil,
      or_false] at hi
    rcases hi with rfl | rfl | rfl
    · simp
    · simp
    · simp only [Option.toList_some, List.singleton_append, List.mem_cons, List.mem_map,
        List.not_mem_nil, or_false, false_implies, implies_true, and_true, true_and]
      rintro p (rfl | rfl | ⟨f, -, rfl⟩)
      · exact .inr ⟨nodeTrait, .inl rfl, rfl⟩
      · exact .inr ⟨nodeTrait, .inl rfl, rfl⟩
      · exact .inr ⟨nodeTrait, .inl rfl, rfl⟩
  · obtain ⟨parent, hp, heq⟩ := Option.map_eq_some_iff.mp (Option.mem_toList.mp hi)
    obtain rfl := Decl.impl.inj heq
    simp [hp]

end StructItem

variable {units : List TypeUnit} {loc : Location}

theorem exists_standsAt_of_mem {decls : List Decl}
    (hdecls : decls ∈ scopesAt loc (Item.declsOf (indexItems units))) {d : Decl} (hd : d ∈ decls)
    (hm : ∀ m inner, d ≠ .module m inner) :
    ∃ isUnit parent t, StandsAt units loc isUnit parent t ∧
      d ∈ (structItem isUnit loc.length parent t).decls := by
  obtain ⟨items, hscope, rfl⟩ := Scope.exists_of_mem_scopesAt hdecls
  rw [Item.declsOf_eq_flatMap, List.mem_flatMap] at hd
  obtain ⟨i, hi, hd⟩ := hd
  rcases hscope.isStanding with ⟨rfl, rfl⟩ | hall
  · obtain ⟨u, -, rfl⟩ := List.mem_map.mp hi
    exact absurd (List.mem_singleton.mp hd) (hm _ _)
  · obtain ⟨isUnit, parent, t, ht, rfl | ⟨-, rfl⟩⟩ := hall i hi
    · exact ⟨isUnit, parent, t, ht, hd⟩
    · exact absurd (List.mem_singleton.mp hd) (hm _ _)

/-- The struct of a type, where the type stands. -/
def declared (loc : Location) (isUnit : Bool) (parent : Option TypePath) (t : TypeDecl) :
    Declared := (structItem isUnit loc.length parent t).declaredAt loc

theorem exists_standsAt_of_mem_structsAt {name : String} {s : Declared}
    (hs : s ∈ structsAt (Item.declsOf (indexItems units)) loc name) :
    ∃ isUnit parent t, StandsAt units loc isUnit parent t ∧ t.name = name ∧
      s = declared loc isUnit parent t := by
  obtain ⟨decls, hdecls, hs⟩ := List.mem_flatMap.mp hs
  obtain ⟨fields, hfields, rfl⟩ := List.mem_map.mp hs
  obtain ⟨d, hd, hfields⟩ := List.mem_flatMap.mp hfields
  cases d with
  | struct n ns =>
    obtain ⟨rfl, rfl⟩ : n = name ∧ ns = fields := by
      rw [Decl.structs] at hfields
      split at hfields
      · next h => exact ⟨h, (List.mem_singleton.mp hfields).symm⟩
      · simp at hfields
    obtain ⟨isUnit, parent, t, ht, hmem⟩ := exists_standsAt_of_mem hdecls hd (by simp)
    obtain ⟨rfl, rfl⟩ := StructItem.struct_mem_decls.mp hmem
    exact ⟨isUnit, parent, t, ht, rfl, rfl⟩
  | impl i => simp [Decl.structs] at hfields
  | module m inner => simp [Decl.structs] at hfields

theorem fields_declared (loc : Location) (isUnit : Bool) (parent : Option TypePath)
    (t : TypeDecl) : (declared loc isUnit parent t).fields =
      ⟨valueField, .ofText t.node.valueType.rustType⟩ ::
        t.children.map fun c => ⟨fieldName c.path, childType isUnit loc.length t.name c⟩ := rfl

namespace StandsAt

variable {isUnit : Bool} {parent : Option TypePath} {t : TypeDecl}

theorem structsAt_eq (hroot : Item.AllDistinct (indexItems units))
    (h : StandsAt units loc isUnit parent t) :
    structsAt (Item.declsOf (indexItems units)) loc t.name = [declared loc isUnit parent t] := by
  obtain ⟨⟨items, hscope, hmem⟩, -⟩ := h.exists_scope
  exact hscope.structsAt_eq hroot hmem

theorem paths_eq (hroot : Item.AllDistinct (indexItems units))
    (h : StandsAt units loc isUnit parent t) :
    (declared loc isUnit parent t).paths (Item.declsOf (indexItems units)) =
      [quote t.path.text] := by
  obtain ⟨⟨items, hscope, hmem⟩, -⟩ := h.exists_scope
  exact (hscope.paths_declaredAt hroot hmem).trans (paths_structItem isUnit loc.length parent t)

theorem resolve_eq (hroot : Item.AllDistinct (indexItems units))
    (h : StandsAt units loc isUnit parent t) {start : Location} {p : TypePath}
    (hwalk : walk start p.modules = some loc) (hname : t.name = p.name) :
    resolve (Item.declsOf (indexItems units)) start p = [declared loc isUnit parent t] := by
  rw [resolve_of_walk hwalk, ← hname, h.structsAt_eq hroot]

theorem isIn (hroot : Item.AllDistinct (indexItems units))
    (h : StandsAt units loc isUnit parent t) :
    (declared loc isUnit parent t).IsIn (Item.declsOf (indexItems units)) := by
  change _ ∈ structsAt _ loc t.name
  rw [h.structsAt_eq hroot]
  exact List.mem_singleton_self _

theorem path_eq_of_declared (hroot : Item.AllDistinct (indexItems units)) {loc' : Location}
    {isUnit' : Bool} {parent' : Option TypePath} {t' : TypeDecl}
    (h : StandsAt units loc isUnit parent t) (h' : StandsAt units loc' isUnit' parent' t')
    (hpaths : (declared loc' isUnit' parent' t').paths (Item.declsOf (indexItems units)) =
      (declared loc isUnit parent t).paths (Item.declsOf (indexItems units))) :
    t'.path = t.path := by
  rw [h.paths_eq hroot, h'.paths_eq hroot] at hpaths
  have htext := Text.Literal.quote_injective (List.singleton_inj.mp hpaths)
  rw [← Path.ofText_text t'.path, htext, Path.ofText_text]

theorem eq_declared {r : Registry} (hu : r.units.result = .ok units) {loc' : Location}
    {isUnit' : Bool} {parent' : Option TypePath} {t' : TypeDecl}
    (h : StandsAt units loc isUnit parent t) (h' : StandsAt units loc' isUnit' parent' t')
    (hp : t'.path = t.path) :
    declared loc' isUnit' parent' t' = declared loc isUnit parent t := by
  obtain ⟨rfl, rfl, rfl, rfl⟩ := h.eq_of_path hu h' hp
  rfl

end StandsAt

theorem exists_standsAt_of_isIn {s : Declared} (hs : s.IsIn (Item.declsOf (indexItems units))) :
    ∃ isUnit parent t, StandsAt units s.location isUnit parent t ∧
      s = declared s.location isUnit parent t := by
  obtain ⟨isUnit, parent, t, ht, -, heq⟩ := exists_standsAt_of_mem_structsAt hs
  exact ⟨isUnit, parent, t, ht, heq⟩

theorem not_isTypeName_rustType (v : ValueType) :
    ¬IsTypeName (TypePath.ofText v.rustType).name := by
  intro h
  obtain ⟨rest, hrest⟩ := h.exists_toList
  have htake : (TypePath.ofText v.rustType).name.toList.take 3 = ['V', 's', 's'] := by
    rw [hrest]
    rfl
  revert htake
  rcases v with s | s | _
  · rcases s with _ | _ | ⟨signed, width⟩ | _ | _ <;> try cases signed <;> cases width
    all_goals decide +kernel
  · rcases s with _ | _ | ⟨signed, width⟩ | _ | _ <;> try cases signed <;> cases width
    all_goals decide +kernel
  · decide +kernel

section

variable {r : Registry} (hu : r.units.result = .ok units)
  (hroot : Item.AllDistinct (indexItems units))

include hu

theorem decls_eq_of_units : (moduleTree units).decls = Item.declsOf (indexItems units) :=
  decls_moduleTree fun _ hm => Registry.isNamed_of_mem_units hu hm

theorem resolve_value (v : ValueType) (loc : Location) :
    resolve (Item.declsOf (indexItems units)) loc (.ofText v.rustType) = [] := by
  rw [List.eq_nil_iff_forall_not_mem]
  intro s hs
  rw [resolve] at hs
  split at hs
  · simp at hs
  · obtain ⟨isUnit, parent, t, ht, hname, -⟩ := exists_standsAt_of_mem_structsAt hs
    exact not_isTypeName_rustType v (hname ▸ ht.isTypeName hu)

include hroot

namespace StandsAt

variable {isUnit : Bool} {parent : Option TypePath} {t : TypeDecl}

theorem exists_resolve_child (h : StandsAt units loc isUnit parent t) {c : ChildRef}
    (hc : c ∈ t.children) :
    ∃ loc' isUnit' parent' d, StandsAt units loc' isUnit' parent' d ∧ d.path = c.path ∧
      resolve (Item.declsOf (indexItems units)) loc (childType isUnit loc.length t.name c) =
        [declared loc' isUnit' parent' d] := by
  obtain ⟨loc', isUnit', parent', d, hd, hname, hpath, hwalk⟩ := h.exists_child hu hc
  exact ⟨loc', isUnit', parent', d, hd, hpath,
    hd.resolve_eq hroot hwalk (hname.trans (name_childType isUnit loc.length t.name c).symm)⟩

theorem exists_resolve_parent {path : TypePath} (h : StandsAt units loc isUnit (some path) t) :
    ∃ owner, resolve (Item.declsOf (indexItems units)) loc path = [owner] ∧
      ∀ o : Declared, o.IsIn (Item.declsOf (indexItems units)) →
        ((∃ f ∈ o.fields, resolve (Item.declsOf (indexItems units)) o.location f.type =
          [declared loc isUnit (some path) t]) ↔ o = owner) := by
  obtain ⟨loc', isUnit', parent', p, hp, hname, hwalk, c, hc, hcname, hcpath, hback⟩ :=
    h.isParentPath hu
  refine ⟨_, hp.resolve_eq hroot hwalk hname, fun o ho => ⟨?_, ?_⟩⟩
  · rintro ⟨f, hf, hres⟩
    obtain ⟨isUnit₁, parent₁, p₁, hp₁, heq⟩ := exists_standsAt_of_isIn ho
    rw [heq] at hf
    rcases List.mem_cons.mp hf with rfl | hf
    · rw [resolve_value hu] at hres
      simp at hres
    · obtain ⟨c₁, hc₁, rfl⟩ := List.mem_map.mp hf
      obtain ⟨loc₂, isUnit₂, parent₂, d, hd, hdpath, hmeans⟩ :=
        hp₁.exists_resolve_child hu hroot hc₁
      have hsame := List.singleton_inj.mp (hmeans.symm.trans hres)
      have hpath := h.path_eq_of_declared hroot hd (by rw [hsame])
      have hsamepath : c₁.path = c.path := by rw [← hdpath, hpath, hcpath]
      rw [heq]
      exact hp.eq_declared hu hp₁
        (Registry.path_eq_of_mem_children hu hp₁.mem_types hc₁ hp.mem_types hc hsamepath)
  · rintro rfl
    refine ⟨_, List.mem_cons_of_mem _ (List.mem_map_of_mem hc), ?_⟩
    exact h.resolve_eq hroot hback
      (hcname.symm.trans (name_childType isUnit' loc'.length p.name c).symm)

end StandsAt

theorem structResolves {isUnit : Bool} {parent : Option TypePath} {t : TypeDecl}
    (h : StandsAt units loc isUnit parent t) :
    (moduleTree units).StructResolves (declared loc isUnit parent t) t where
  name := rfl
  path := by
    rw [decls_eq_of_units hu]
    exact h.paths_eq hroot
  self := by
    rw [decls_eq_of_units hu]
    exact h.resolve_eq hroot rfl rfl
  fields := by
    rw [decls_eq_of_units hu]
    refine ⟨_, _, fields_declared loc isUnit parent t, rfl, resolve_value hu _ _, ?_⟩
    rw [List.forall₂_map_right_iff, List.forall₂_same]
    intro c hc
    obtain ⟨loc', isUnit', parent', d, hd, hpath, hmeans⟩ := h.exists_resolve_child hu hroot hc
    refine ⟨?_, _, hmeans, by rw [hd.paths_eq hroot, hpath]⟩
    dsimp only

theorem implResolves {isUnit : Bool} {parent : Option TypePath} {t : TypeDecl}
    (h : StandsAt units loc isUnit parent t) {i : Impl}
    (hi : .impl i ∈ (structItem isUnit loc.length parent t).decls) :
    (moduleTree units).ImplResolves loc i (declared loc isUnit parent t) := by
  obtain ⟨htype, htraits, hparents⟩ := StructItem.mentions_of_impl_mem_decls hi
  constructor
  · rw [decls_eq_of_units hu]
    exact h.resolve_eq hroot rfl htype.symm
  · intro p hp
    rw [traits_moduleTree fun _ hm => Registry.isNamed_of_mem_units hu hm]
    refine (htraits p hp).imp_right ?_
    rintro ⟨trait, htrait, rfl⟩
    have hwalk := walk_upward loc []
    rw [List.append_nil] at hwalk
    exact ⟨htrait, hwalk⟩
  · intro p hp
    obtain rfl : parent = some p := hparents p hp
    rw [decls_eq_of_units hu]
    exact h.exists_resolve_parent hu hroot

theorem exists_resolve_export {u : TypeUnit} (hm : u ∈ units) :
    ∃ s, resolve (Item.declsOf (indexItems units)) [] (exportPath u.decl.name) = [s] ∧
      s.paths (Item.declsOf (indexItems units)) = [quote u.decl.path.text] := by
  have ht := StandsAt.unit hm
  have hwalk : walk [] (exportPath u.decl.name).modules = some [moduleName u.decl.name] :=
    walk_of_not_mem (by simpa [exportPath] using upward_ne_moduleName (ht.isTypeName hu)) []
  exact ⟨_, ht.resolve_eq hroot hwalk rfl, ht.paths_eq hroot⟩

theorem resolves_moduleTree : (moduleTree units).Resolves units where
  struct s hs := by
    rw [decls_eq_of_units hu] at hs
    obtain ⟨isUnit, parent, t, ht, heq⟩ := exists_standsAt_of_isIn hs
    rw [heq]
    exact ⟨t, ht.mem_types, structResolves hu hroot ht⟩
  unique s s' hs hs' hpaths := by
    rw [decls_eq_of_units hu] at hs hs' hpaths
    obtain ⟨isUnit, parent, t, ht, heq⟩ := exists_standsAt_of_isIn hs
    obtain ⟨isUnit', parent', t', ht', heq'⟩ := exists_standsAt_of_isIn hs'
    rw [heq, heq'] at hpaths ⊢
    exact ht'.eq_declared hu ht (ht'.path_eq_of_declared hroot ht hpaths)
  complete t ht := by
    rw [decls_eq_of_units hu]
    obtain ⟨loc, isUnit, parent, ht⟩ := exists_standsAt ht
    exact ⟨_, ht.isIn hroot, ht.paths_eq hroot⟩
  impl loc decls hdecls i hi := by
    rw [decls_eq_of_units hu] at hdecls
    obtain ⟨isUnit, parent, t, ht, hi⟩ := exists_standsAt_of_mem hdecls hi (by simp)
    exact ⟨_, implResolves hu hroot ht hi⟩
  exports := by
    rw [decls_eq_of_units hu, exports_moduleTree fun _ hm => Registry.isNamed_of_mem_units hu hm,
      List.forall₂_map_right_iff, List.forall₂_same]
    exact fun u hm => exists_resolve_export hu hroot hm

end

end SignalTree.Source

namespace SignalTree.Registry

open Source

variable {r : Registry} {units : List TypeUnit} {module : String} {files : List SourceFile}

/-- Every path in the files of a registry means one struct, and the right one, as far as the files
hold what is written for the units and nothing else. They do if and only if all lines of their
headers are comments or blank, whatever line feeds the paths have. -/
theorem resolves (hu : r.units.result = .ok units)
    (hf : (renderModule units module).result = .ok files) :
    files.map SourceFile.name =
        ((moduleTree units).modules.map fun m => m.1 ++ ".rs") ++ [indexFile] ∧
      (ModuleTree.read? files = some (moduleTree units) ↔
        IsSilent (indexNote module) ∧ ∀ u ∈ units, IsSilent (unitNote u)) ∧
      (moduleTree units).Resolves units := by
  have hnamed : ∀ u ∈ units, u.IsNamed := fun u hm => isNamed_of_mem_units hu hm
  refine ⟨?_, read?_eq_moduleTree_iff hnamed hf,
    resolves_moduleTree hu (allDistinct_indexItems hnamed hf)⟩
  rw [(renderModule_eq_ok hf).1, List.map_append, List.map_map, moduleTree, notedTree, List.map_map]
  rfl

theorem resolves_sample : ∃ units files, sample.units.result = .ok units ∧
    (renderModule units "vehicle").result = .ok files ∧ (∃ u ∈ units, u.parent.isSome = true) ∧
    ModuleTree.read? files = some (moduleTree units) ∧ (moduleTree units).Resolves units := by
  have hok : sample.units.result.toOption.any (fun units =>
      (renderModule units "vehicle").result.isOk && (units.any (·.parent.isSome) &&
        units.all fun u => decide (IsSilent (unitNote u)))) = true := by
    decide +kernel
  obtain ⟨units, files, hu, hf, htest⟩ := exists_rendered hok
  simp only [Bool.and_eq_true, List.any_eq_true, List.all_eq_true, decide_eq_true_eq] at htest
  obtain ⟨-, hread, hresolves⟩ := resolves hu hf
  have hindex : IsSilent (indexNote "vehicle") := by decide +kernel
  exact ⟨units, files, hu, hf, htest.1, hread.mpr ⟨hindex, htest.2⟩, hresolves⟩

/-- A path with a struct on lines of its own, named like the type of a node below it. -/
def structPath : String := "Vehicle.A\npub struct VssB \x7b\n\x7d\n//"

def structPathSample : Registry := .ofNodes
  (["Vehicle", "Vehicle.B", structPath, structPath ++ ".B"].map fun p => .plainBranch (.ofText p))

/-- The header of a file can declare the struct of a child once more. -/
theorem child_means_two_structs : ∃ units files tree, structPathSample.units.result = .ok units ∧
    (renderModule units "vss").result = .ok files ∧ ModuleTree.read? files = some tree ∧
    (∃ u ∈ units, ∃ c ∈ u.decl.children,
      1 < (resolve tree.decls [moduleName u.decl.name] (childType true 1 u.decl.name c)).length) ∧
    ¬tree.Resolves units := by
  have hok : structPathSample.units.result.toOption.any (fun units =>
      (renderModule units "vss").result.isOk &&
        (units.all (fun u => (outline? (unitNote u)).isSome) && units.any fun u =>
          (u.decl.children.any fun c => childType true 1 u.decl.name c == ⟨[], "VssB"⟩) &&
            1 < ((Outline.declsOf (readNote u) ++ Item.declsOf (unitItems u)).flatMap
              (Decl.structs "VssB")).length)) = true := by
    decide +kernel
  obtain ⟨units, files, hu, hf, htest⟩ := exists_rendered hok
  simp only [Bool.and_eq_true, List.all_eq_true, List.any_eq_true, decide_eq_true_eq, beq_iff_eq,
    Option.isSome_iff_exists] at htest
  obtain ⟨hnotes, u, hm, ⟨c, hc, hchild⟩, htwice⟩ := htest
  have hnamed : ∀ u ∈ units, u.IsNamed := fun u hm => isNamed_of_mem_units hu hm
  have hread : ModuleTree.read? files = some (notedTree readNote units) := by
    refine (read?_eq_notedTree_iff hnamed hf).mpr ⟨by decide +kernel, fun u hm => ?_⟩
    obtain ⟨note, hnote⟩ := hnotes u hm
    rw [readNote, hnote, Option.getD_some]
  have htwo : 1 < (structsAt (notedTree readNote units).decls [moduleName u.decl.name]
      "VssB").length := by
    have hmodule : (moduleName u.decl.name, readNote u ++ unitOutline u) ∈
        (notedTree readNote units).modules := List.mem_map_of_mem hm
    have hle := ModuleTree.length_structs_le hmodule "VssB"
    rw [Outline.declsOf_append, declsOf_unitOutline (hnamed u hm)] at hle
    exact lt_of_lt_of_le htwice hle
  refine ⟨units, files, _, hu, hf, hread, ⟨u, hm, c, hc, ?_⟩, fun hresolves => ?_⟩
  · rw [hchild]
    exact htwo
  · have hone := hresolves.length_structsAt_le [moduleName u.decl.name] "VssB"
    omega

end SignalTree.Registry
