import SignalTree.Proofs.Resolve
import SignalTree.Proofs.TypeTree

/-!
Where the structs of types stand. The types nested in a unit stand beside it, those
nested in any other type in a module beside that one, and every struct of a generated
module is the struct of a type that stands where the struct is.
-/
namespace SignalTree.Source

/-- The index as items: a module for the file of every unit. -/
def indexItems (units : List TypeUnit) : List Item :=
  units.map fun u => .module (moduleName u.decl.name) (unitItems u)

def innerModules (isUnit : Bool) (owner : String) : List String :=
  if isUnit then [] else [nestedModule owner]

/-- A type, seen from those nested in it. -/
def innerParent (isUnit : Bool) (owner : String) : TypePath :=
  ⟨if isUnit then [] else [TypePath.upward], owner⟩

@[simp] theorem innerModules_true (owner : String) : innerModules true owner = [] := rfl

@[simp] theorem innerModules_false (owner : String) :
    innerModules false owner = [nestedModule owner] := rfl

@[simp] theorem innerParent_true (owner : String) : innerParent true owner = ⟨[], owner⟩ := rfl

@[simp] theorem innerParent_false (owner : String) :
    innerParent false owner = ⟨[TypePath.upward], owner⟩ := rfl

/-- The location of the struct of a type, whether it is that of a unit, and its parent. -/
inductive StandsAt (units : List TypeUnit) :
    Location → Bool → Option TypePath → TypeDecl → Prop
  | unit {u : TypeUnit} (hm : u ∈ units) :
    StandsAt units [moduleName u.decl.name] true (u.parent.map parentPath) u.decl
  | nested {loc : Location} {isUnit : Bool} {parent : Option TypePath} {t d : TypeDecl}
      (ht : StandsAt units loc isUnit parent t) (hd : d ∈ t.nested) :
    StandsAt units (loc ++ innerModules isUnit t.name) false (some (innerParent isUnit t.name)) d

theorem mem_nestedItemsOf {depth : Nat} {parent : TypePath} {ds : List TypeDecl} {i : Item} :
    i ∈ nestedItemsOf depth parent ds ↔ ∃ d ∈ ds,
      i = .struct (structItem false depth (some parent) d) ∨
        d.nested ≠ [] ∧ i = .module (nestedModule d.name)
          (nestedItemsOf (depth + 1) (innerParent false d.name) d.nested) := by
  induction ds with
  | nil => simp [nestedItemsOf]
  | cons d ds ih =>
    rw [nestedItemsOf, List.mem_append, ih, nestedItems_eq, List.mem_cons, List.exists_mem_cons_iff]
    cases hn : d.nested with
    | nil => simp
    | cons e rest => simp

namespace StandsAt

variable {units : List TypeUnit} {loc : Location} {isUnit : Bool} {parent : Option TypePath}
  {t : TypeDecl}

/-- The items of a module at the location have the struct of the type, and the items of
the types in it stand where the inner modules lead. -/
theorem exists_scope (h : StandsAt units loc isUnit parent t) :
    (∃ items, Scope (indexItems units) loc items ∧
      .struct (structItem isUnit loc.length parent t) ∈ items) ∧
    (t.nested ≠ [] → ∃ items, Scope (indexItems units) (loc ++ innerModules isUnit t.name) items ∧
      nestedItemsOf (loc ++ innerModules isUnit t.name).length (innerParent isUnit t.name)
        t.nested ⊆ items) := by
  -- The types of one are needed a level above their module, so the induction carries both.
  induction h with
  | @unit u hm =>
    have hscope : Scope (indexItems units) ([] ++ [moduleName u.decl.name]) (unitItems u) :=
      .inside .index (List.mem_map_of_mem hm)
    refine ⟨⟨_, hscope, List.mem_cons_self⟩, fun _ => ?_⟩
    rw [innerModules_true, List.append_nil]
    exact ⟨_, hscope, List.subset_cons_self _ _⟩
  | @nested loc isUnit parent t d ht hd ih =>
    obtain ⟨items, hscope, hsub⟩ := ih.2 (List.ne_nil_of_mem hd)
    refine ⟨⟨items, hscope, hsub (mem_nestedItemsOf.mpr ⟨d, hd, .inl rfl⟩)⟩, fun hn => ?_⟩
    have hmodule := hsub (mem_nestedItemsOf.mpr ⟨d, hd, .inr ⟨hn, rfl⟩⟩)
    have hlength : (loc ++ innerModules isUnit t.name ++ innerModules false d.name).length =
        (loc ++ innerModules isUnit t.name).length + 1 := List.length_append
    refine ⟨_, hscope.inside hmodule, ?_⟩
    rw [hlength]
    exact List.Subset.refl _

theorem length_pos (h : StandsAt units loc isUnit parent t) : 0 < loc.length := by
  induction h with
  | unit => simp
  | nested _ _ ih =>
    rw [List.length_append]
    omega

theorem mem_types (h : StandsAt units loc isUnit parent t) : t ∈ units.flatMap TypeUnit.types := by
  rw [List.mem_flatMap]
  induction h with
  | unit hm => exact ⟨_, hm, TypeDecl.self_mem_types _⟩
  | nested ht hd ih =>
    obtain ⟨u, hm, ht⟩ := ih
    exact ⟨u, hm, TypeDecl.mem_types_of_mem_nested ht hd⟩

end StandsAt

theorem exists_standsAt {units : List TypeUnit} {t : TypeDecl}
    (ht : t ∈ units.flatMap TypeUnit.types) :
    ∃ loc isUnit parent, StandsAt units loc isUnit parent t := by
  obtain ⟨u, hm, ht⟩ := List.mem_flatMap.mp ht
  refine TypeDecl.types_induction (P := fun t => ∃ loc isUnit parent,
    StandsAt units loc isUnit parent t) ?_ u.decl ⟨_, _, _, .unit hm⟩ t ht
  rintro d e ⟨loc, isUnit, parent, hd⟩ he
  exact ⟨_, _, _, hd.nested he⟩

def IsStanding (units : List TypeUnit) (loc : Location) (i : Item) : Prop :=
  ∃ isUnit parent t, StandsAt units loc isUnit parent t ∧
    (i = .struct (structItem isUnit loc.length parent t) ∨
      isUnit = false ∧ i = .module (nestedModule t.name)
        (nestedItemsOf (loc.length + 1) (innerParent false t.name) t.nested))

theorem Scope.isStanding {units : List TypeUnit} {loc : Location} {items : List Item}
    (h : Scope (indexItems units) loc items) :
    loc = [] ∧ items = indexItems units ∨ ∀ i ∈ items, IsStanding units loc i := by
  have hnested {loc isUnit parent} {t : TypeDecl} (ht : StandsAt units loc isUnit parent t) :
      ∀ i ∈ nestedItemsOf (loc ++ innerModules isUnit t.name).length (innerParent isUnit t.name)
        t.nested, IsStanding units (loc ++ innerModules isUnit t.name) i := by
    intro i hi
    obtain ⟨d, hd, rfl | ⟨-, rfl⟩⟩ := mem_nestedItemsOf.mp hi
    · exact ⟨_, _, d, ht.nested hd, .inl rfl⟩
    · exact ⟨_, _, d, ht.nested hd, .inr ⟨rfl, rfl⟩⟩
  induction h with
  | index => exact .inl ⟨rfl, rfl⟩
  | @inside loc items m inner h hm ih =>
    right
    rcases ih with ⟨rfl, rfl⟩ | ih
    · obtain ⟨u, hu, heq⟩ := List.mem_map.mp hm
      obtain ⟨rfl, rfl⟩ := Item.module.inj heq
      refine List.forall_mem_cons.mpr ⟨⟨_, _, _, .unit hu, .inl rfl⟩, ?_⟩
      simpa using hnested (.unit hu)
    · obtain ⟨isUnit, parent, t, ht, heq | ⟨rfl, heq⟩⟩ := ih _ hm
      · cases heq
      · obtain ⟨rfl, rfl⟩ := Item.module.inj heq
        simpa using hnested ht

end SignalTree.Source
