import SignalTree.Proofs.Forest
import SignalTree.Proofs.Standing
import SignalTree.Proofs.UnitNames

/-!
References between the types of a registry, followed through the modules. The path that
a struct has for a child leads to where the child stands, and the path it has for its
parent to a struct that has it as a child.
-/
namespace SignalTree

theorem Hierarchy.eq_of_mem_keys {h : Hierarchy} {p q k : Path} (hp : k ∈ h.keys p)
    (hq : k ∈ h.keys q) : p = q := by
  rcases mem_keys_iff.mp hp with ⟨hk, hp⟩ | ⟨hk, hp⟩ <;>
    rcases mem_keys_iff.mp hq with ⟨hk', hq⟩ | ⟨hk', hq⟩
  · exact Option.some.inj (hp.symm.trans hq)
  · simp [hk] at hk'
  · simp [hk] at hk'
  · exact Option.some.inj ((mem_nestedKeys_iff.mp hp).1.symm.trans (mem_nestedKeys_iff.mp hq).1)

theorem Registry.path_eq_of_mem_children {r : Registry} {units : List TypeUnit}
    (hu : r.units.result = .ok units) {t t' : TypeDecl} {c c' : ChildRef}
    (ht : t ∈ units.flatMap TypeUnit.types) (hc : c ∈ t.children)
    (ht' : t' ∈ units.flatMap TypeUnit.types) (hc' : c' ∈ t'.children) (hp : c.path = c'.path) :
    t.path = t'.path := by
  obtain ⟨k, hk, rfl⟩ := exists_key_of_mem_children hu ht hc
  obtain ⟨k', hk', rfl⟩ := exists_key_of_mem_children hu ht' hc'
  obtain rfl : k = k' := hp
  exact Hierarchy.eq_of_mem_keys hk hk'

theorem Registry.path_of_refersTo {r : Registry} {units : List TypeUnit}
    (hu : r.units.result = .ok units) {u : TypeUnit} (hm : u ∈ units) {t : TypeDecl}
    (ht : t ∈ units.flatMap TypeUnit.types) {c : ChildRef} (hc : c ∈ t.children)
    (href : c.RefersTo u) : c.path = u.decl.path := by
  obtain ⟨k, -, rfl⟩ := exists_key_of_mem_children hu ht hc
  exact (refersTo_refAt_iff hu hm).mp href

namespace Source

theorem upward_ne_moduleName {name : String} (h : IsTypeName name) :
    TypePath.upward ≠ moduleName name := by
  intro heq
  have hhead := h.head?_moduleName
  rw [← heq] at hhead
  revert hhead
  decide

theorem upward_not_mem_innerModules {isUnit : Bool} {owner : String} (h : IsTypeName owner) :
    TypePath.upward ∉ innerModules isUnit owner := by
  cases isUnit with
  | true => exact List.not_mem_nil
  | false => simpa [nestedModule] using upward_ne_moduleName h

theorem walk_childType_unit {c : ChildRef} (hk : c.kind = .unit) (hc : IsTypeName c.name)
    (loc : Location) (isUnit : Bool) (owner : String) :
    walk loc (childType isUnit loc.length owner c).modules = some [moduleName c.name] := by
  have hmodules : (childType isUnit loc.length owner c).modules =
      List.replicate loc.length TypePath.upward ++ [moduleName c.name] := by
    rw [childType, hk]
  rw [hmodules, walk_upward, walk_of_not_mem (by simpa using upward_ne_moduleName hc),
    List.nil_append]

theorem walk_childType_nested {c : ChildRef} (hk : c.kind = .nested) {owner : String}
    (howner : IsTypeName owner) (loc : Location) (isUnit : Bool) :
    walk loc (childType isUnit loc.length owner c).modules =
      some (loc ++ innerModules isUnit owner) := by
  have hmodules : (childType isUnit loc.length owner c).modules = innerModules isUnit owner := by
    rw [childType, hk]
    rfl
  rw [hmodules, walk_of_not_mem (upward_not_mem_innerModules howner)]

theorem walk_innerParent (loc : Location) (isUnit : Bool) (owner : String) :
    walk (loc ++ innerModules isUnit owner) (innerParent isUnit owner).modules = some loc := by
  cases isUnit with
  | true => rw [innerModules_true, List.append_nil, innerParent_true, walk]
  | false =>
    rw [innerModules_false, innerParent_false, walk, if_pos rfl, if_neg (by simp),
      List.dropLast_concat, walk]

theorem name_childType (isUnit : Bool) (depth : Nat) (owner : String) (c : ChildRef) :
    (childType isUnit depth owner c).name = c.name := by
  unfold childType
  split <;> rfl

namespace StandsAt

variable {r : Registry} {units : List TypeUnit} {loc : Location} {isUnit : Bool}
  {parent : Option TypePath} {t : TypeDecl}

theorem isTypeName (hu : r.units.result = .ok units) (h : StandsAt units loc isUnit parent t) :
    IsTypeName t.name := by
  obtain ⟨u, hm, ht⟩ := List.mem_flatMap.mp h.mem_types
  exact (Registry.isNamed_of_mem_units hu hm).types t ht

theorem isTypeName_child (hu : r.units.result = .ok units)
    (h : StandsAt units loc isUnit parent t) {c : ChildRef} (hc : c ∈ t.children) :
    IsTypeName c.name := by
  obtain ⟨u, hm, ht⟩ := List.mem_flatMap.mp h.mem_types
  exact (Registry.isNamed_of_mem_units hu hm).children t ht c hc

theorem exists_child (hu : r.units.result = .ok units) (h : StandsAt units loc isUnit parent t)
    {c : ChildRef} (hc : c ∈ t.children) :
    ∃ loc' isUnit' parent' d, StandsAt units loc' isUnit' parent' d ∧ d.name = c.name ∧
      d.path = c.path ∧ walk loc (childType isUnit loc.length t.name c).modules = some loc' := by
  cases hk : c.kind with
  | unit =>
    obtain ⟨v, hv, hname, hpath, -⟩ := Registry.exists_unit_of_mem_children hu h.mem_types hc hk
    refine ⟨_, _, _, v.decl, .unit hv, hname, hpath, ?_⟩
    rw [walk_childType_unit hk (h.isTypeName_child hu hc), hname]
  | nested =>
    obtain ⟨d, hd, hname, hpath, -⟩ := Registry.exists_nested_of_mem_children hu h.mem_types hc hk
    exact ⟨_, _, _, d, h.nested hd, hname, hpath, walk_childType_nested hk (h.isTypeName hu) _ _⟩

theorem exists_getLastD {chain : List TypeDecl} (h : StandsAt units loc false parent t)
    (hchain : List.IsChain (fun a b => b ∈ a.nested) (t :: chain)) :
    ∃ parent', StandsAt units (loc ++ (t :: chain).dropLast.map fun d => nestedModule d.name) false
      parent' (chain.getLastD t) := by
  induction chain generalizing loc parent t with
  | nil => exact ⟨parent, by simpa using h⟩
  | cons e rest ih =>
    obtain ⟨he, hrest⟩ := List.isChain_cons_cons.mp hchain
    obtain ⟨parent', hlast⟩ := ih (h.nested he) hrest
    refine ⟨parent', ?_⟩
    rw [innerModules_false, List.append_assoc, List.singleton_append] at hlast
    rw [List.getLastD_cons, List.dropLast_cons_of_ne_nil (List.cons_ne_nil _ _), List.map_cons]
    exact hlast

theorem exists_getLastD_unit {v : TypeUnit} (hv : v ∈ units) {chain : List TypeDecl}
    (hchain : List.IsChain (fun a b => b ∈ a.nested) (v.decl :: chain)) :
    ∃ isUnit parent, StandsAt units
      (moduleName v.decl.name :: chain.dropLast.map fun d => nestedModule d.name) isUnit parent
        (chain.getLastD v.decl) := by
  cases chain with
  | nil => exact ⟨_, _, .unit hv⟩
  | cons d rest =>
    obtain ⟨hd, hrest⟩ := List.isChain_cons_cons.mp hchain
    obtain ⟨parent, hlast⟩ := exists_getLastD ((StandsAt.unit hv).nested hd) hrest
    refine ⟨false, parent, ?_⟩
    rw [innerModules_true, List.append_nil, List.singleton_append] at hlast
    rwa [List.getLastD_cons]

theorem walk_parentPath {ref : ParentRef} (hunit : IsTypeName ref.unit)
    (hnested : ∀ n ∈ ref.nested, IsTypeName n) (m : String) :
    walk [m] (parentPath ref).modules =
      some (moduleName ref.unit :: ref.nested.dropLast.map nestedModule) := by
  have hmem : TypePath.upward ∉ moduleName ref.unit :: ref.nested.dropLast.map nestedModule := by
    rw [List.mem_cons, not_or]
    refine ⟨upward_ne_moduleName hunit, fun h => ?_⟩
    obtain ⟨n, hn, heq⟩ := List.mem_map.mp h
    exact upward_ne_moduleName (hnested n (List.dropLast_subset _ hn)) heq.symm
  rw [parentPath, walk, if_pos rfl, if_neg (List.cons_ne_nil _ _), List.dropLast_singleton,
    walk_of_not_mem hmem, List.nil_append]

/-- A path leads to a type that has another one as a child, and the path to the child
leads back. -/
def IsParentPath (units : List TypeUnit) (loc : Location) (path : TypePath) (t : TypeDecl) :
    Prop :=
  ∃ loc' isUnit' parent' o, StandsAt units loc' isUnit' parent' o ∧ o.name = path.name ∧
    walk loc path.modules = some loc' ∧
    ∃ c ∈ o.children, c.name = t.name ∧ c.path = t.path ∧
      walk loc' (childType isUnit' loc'.length o.name c).modules = some loc

theorem isParentPath_parentPath (hu : r.units.result = .ok units) {u : TypeUnit} (hm : u ∈ units)
    {ref : ParentRef} (href : u.parent = some ref) :
    IsParentPath units [moduleName u.decl.name] (parentPath ref) u.decl := by
  obtain ⟨o, ho⟩ : ∃ o, (Hierarchy.ofRegistry r).owner? u.decl.path = some o := by
    refine Option.ne_none_iff_exists'.mp fun hnone => ?_
    simp [Registry.parent_eq_none_of_owner? hu hm hnone] at href
  obtain ⟨ref', href', v, hv, chain, -, hunit, hnested, hchain, -, hcount, -⟩ :=
    Registry.exists_chain_of_owner? hu hm ho
  obtain rfl := Option.some.inj (href.symm.trans href')
  have hnamed := (Registry.isNamed_of_mem_units hu hm).parent ref href
  obtain ⟨isUnit, parent, hlast⟩ := exists_getLastD_unit hv hchain
  obtain ⟨c, hc, hrefers⟩ := List.countP_pos_iff.mp (hcount ▸ Nat.one_pos)
  obtain ⟨hkind, hname⟩ := of_decide_eq_true hrefers
  have hpath := Registry.path_of_refersTo hu hm hlast.mem_types hc ⟨hkind, hname⟩
  refine ⟨_, _, _, _, hlast, ?_, ?_, c, hc, hname, hpath, ?_⟩
  · change _ = ref.typeName
    rw [ParentRef.typeName, hunit, hnested, List.getLast?_map, List.getLastD_eq_getLast?]
    cases chain.getLast? <;> rfl
  · rw [walk_parentPath hnamed.1 hnamed.2, hunit, hnested, ← List.map_dropLast, List.map_map]
    rfl
  · rw [walk_childType_unit hkind (hlast.isTypeName_child hu hc), hname]

theorem isParentPath (hu : r.units.result = .ok units) {path : TypePath}
    (h : StandsAt units loc isUnit (some path) t) : IsParentPath units loc path t := by
  generalize hparent : some path = parent at h
  cases h with
  | @unit u hm =>
    obtain ⟨ref, href, rfl⟩ := Option.map_eq_some_iff.mp hparent.symm
    exact isParentPath_parentPath hu hm href
  | @nested loc isUnit parent t d ht hd =>
    obtain rfl := Option.some.inj hparent
    obtain ⟨c, hc, hkind, hname, hpath⟩ := Registry.exists_child_of_mem_nested hu ht.mem_types hd
    exact ⟨loc, isUnit, parent, t, ht, rfl, walk_innerParent loc isUnit t.name, c, hc, hname,
      hpath, walk_childType_nested hkind (ht.isTypeName hu) loc isUnit⟩

theorem isUnit_path (hu : r.units.result = .ok units) (h : StandsAt units loc isUnit parent t) :
    (Hierarchy.ofRegistry r).isUnit t.path = isUnit := by
  cases h with
  | unit hm => exact (Registry.exists_declAt_of_mem_units hu hm).1
  | nested ht hd =>
    exact (Hierarchy.mem_nestedKeys.mp (Registry.mem_nestedKeys_of_mem_nested hu ht.mem_types hd)).1

theorem eq_of_path (hu : r.units.result = .ok units) (h : StandsAt units loc isUnit parent t)
    {loc' : Location} {isUnit' : Bool} {parent' : Option TypePath} {t' : TypeDecl}
    (h' : StandsAt units loc' isUnit' parent' t') (hp : t'.path = t.path) :
    loc' = loc ∧ isUnit' = isUnit ∧ parent' = parent ∧ t' = t := by
  have hunit : isUnit' = isUnit := by rw [← h.isUnit_path hu, ← hp, h'.isUnit_path hu]
  induction h generalizing loc' isUnit' parent' t' with
  | @unit u hm =>
    cases h' with
    | @unit u' hm' =>
      have hname : u'.decl.name = u.decl.name := by
        rw [Registry.name_of_mem_units hu hm', Registry.name_of_mem_units hu hm, hp]
      obtain rfl := List.inj_on_of_nodup_map (Registry.units_eq_ok hu).2.1 hm' hm hname
      exact ⟨rfl, rfl, rfl, rfl⟩
    | nested ht hd => cases hunit
  | @nested loc isUnit parent t d ht hd ih =>
    have hd' := h'
    cases h' with
    | unit hm => cases hunit
    | @nested loc' isUnit' parent' t' d' ht' hdin' =>
      have hparent := (Hierarchy.mem_nestedKeys.mp
        (Registry.mem_nestedKeys_of_mem_nested hu ht.mem_types hd)).2.1
      have hparent' := (Hierarchy.mem_nestedKeys.mp
        (Registry.mem_nestedKeys_of_mem_nested hu ht'.mem_types hdin')).2.1
      have htp : t'.path = t.path := Option.some.inj (hparent'.symm.trans (hp ▸ hparent))
      have hsame : isUnit' = isUnit := by rw [← ht.isUnit_path hu, ← htp, ht'.isUnit_path hu]
      obtain ⟨rfl, rfl, rfl, rfl⟩ := ih ht' htp hsame
      refine ⟨rfl, rfl, rfl, ?_⟩
      rw [Registry.eq_declAt hu hd'.mem_types, hp,
        ← Registry.eq_declAt hu (ht.nested hd).mem_types]

end StandsAt

end Source

end SignalTree
