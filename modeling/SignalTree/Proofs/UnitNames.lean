import SignalTree.Proofs.Placement
import SignalTree.Proofs.UnitItems

/-!
The names in the units of a registry. Every path that a unit names was found to have a
name, so all types that it mentions have the names that types are given.
-/
namespace SignalTree

/-- A type whose own name and the names of its children are those of some paths. -/
structure TypeDecl.NamedFrom (paths : List Path) (d : TypeDecl) : Prop where
  self : d.name = d.path.typeName ∧ d.path ∈ paths
  children : ∀ c ∈ d.children, c.name = c.path.typeName ∧ c.path ∈ paths

theorem TypeDecl.NamedFrom.mono {paths paths' : List Path} {d : TypeDecl} (h : d.NamedFrom paths)
    (hsub : paths ⊆ paths') : d.NamedFrom paths' where
  self := ⟨h.self.1, hsub h.self.2⟩
  children c hc := ⟨(h.children c hc).1, hsub (h.children c hc).2⟩

namespace Slot

theorem path_mem_paths (s : Slot) : s.path ∈ s.paths := by
  cases s <;> simp [path, paths]

theorem pathsOf_eq_flatMap (slots : List Slot) : pathsOf slots = slots.flatMap paths := by
  induction slots with
  | nil => simp [pathsOf]
  | cons s slots ih => simp [pathsOf, ih]

theorem name_of_mem_refs {slots : List Slot} {c : ChildRef} (hc : c ∈ slots.map ref) :
    c.name = c.path.typeName ∧ c.path ∈ pathsOf slots := by
  obtain ⟨s, hs, rfl⟩ := List.mem_map.mp hc
  refine ⟨rfl, ?_⟩
  rw [pathsOf_eq_flatMap]
  exact List.mem_flatMap.mpr ⟨s, hs, s.path_mem_paths⟩

mutual

theorem namedFrom_types (s : Slot) {d : TypeDecl} (hd : s.decl? = some d) :
    ∀ e ∈ d.types, e.NamedFrom s.paths := by
  match s with
  | unit p => simp [decl?] at hd
  | nested node implicit slots =>
    simp only [decl?, Option.some.injEq] at hd
    subst hd
    rw [TypeDecl.types_eq, paths, List.forall_mem_cons]
    constructor
    · refine ⟨⟨rfl, List.mem_cons_self⟩, fun c hc => ?_⟩
      exact ⟨(name_of_mem_refs hc).1, List.mem_cons_of_mem _ (name_of_mem_refs hc).2⟩
    · exact fun e he => (namedFrom_typesOf slots e he).mono (List.subset_cons_self _ _)

theorem namedFrom_typesOf (slots : List Slot) :
    ∀ e ∈ TypeDecl.typesOf (declsOf slots), e.NamedFrom (pathsOf slots) := by
  match slots with
  | [] => simp [declsOf, TypeDecl.typesOf]
  | s :: rest =>
    intro e he
    rw [pathsOf]
    cases hd : s.decl? with
    | none =>
      rw [declsOf, hd] at he
      exact (namedFrom_typesOf rest e he).mono (List.subset_append_right _ _)
    | some d =>
      rw [declsOf, hd] at he
      rcases List.mem_append.mp he with he | he
      · exact (namedFrom_types s hd e he).mono (List.subset_append_left _ _)
      · exact (namedFrom_typesOf rest e he).mono (List.subset_append_right _ _)

end

end Slot

namespace Hierarchy

variable {h : Hierarchy}

theorem namedFrom_types_unit {n : Node} :
    ∀ d ∈ (h.unit n).types, d.NamedFrom (h.namedPaths n.path) := by
  rw [TypeUnit.types, TypeDecl.types_eq, List.forall_mem_cons, namedPaths]
  have hsub : Slot.pathsOf (h.slots n.path) ⊆
      Slot.pathsOf (h.slots n.path) ++ n.path :: h.parentPaths n.path :=
    List.subset_append_left _ _
  constructor
  · refine ⟨⟨rfl, List.mem_append_right _ List.mem_cons_self⟩, fun c hc => ?_⟩
    exact ⟨(Slot.name_of_mem_refs hc).1, hsub (Slot.name_of_mem_refs hc).2⟩
  · exact fun d hd => (Slot.namedFrom_typesOf (h.slots n.path) d hd).mono hsub

theorem exists_paths_of_parentRef? {p : Path} {ref : ParentRef} (hr : h.parentRef? p = some ref) :
    (∃ q ∈ h.parentPaths p, ref.unit = q.typeName) ∧
      ∀ name ∈ ref.nested, ∃ q ∈ h.parentPaths p, name = q.typeName := by
  obtain ⟨o, ho, rfl⟩ := Option.map_eq_some_iff.mp hr
  rw [parentPaths, ho]
  refine ⟨⟨o, by simp, rfl⟩, fun name hname => ?_⟩
  obtain ⟨q, hq, rfl⟩ := List.mem_map.mp hname
  exact ⟨q, List.mem_append_left _ (List.mem_reverse.mp hq), rfl⟩

theorem isNamed_unit {n : Node} (hn : ∀ p ∈ h.namedPaths n.path, p.isNameable = true) :
    (h.unit n).IsNamed where
  types d hd :=
    have hself := (namedFrom_types_unit d hd).self
    ⟨d.path, hn _ hself.2, hself.1.symm⟩
  children d hd c hc :=
    have hchild := (namedFrom_types_unit d hd).children c hc
    ⟨c.path, hn _ hchild.2, hchild.1.symm⟩
  parent ref hr := by
    have hsub : h.parentPaths n.path ⊆ h.namedPaths n.path := fun q hq =>
      List.mem_append_right _ (List.mem_cons_of_mem _ hq)
    obtain ⟨⟨o, ho, hunit⟩, hnested⟩ := exists_paths_of_parentRef? hr
    refine ⟨⟨o, hn o (hsub ho), hunit.symm⟩, fun name hname => ?_⟩
    obtain ⟨q, hq, hname⟩ := hnested name hname
    exact ⟨q, hn q (hsub hq), hname.symm⟩

theorem isNameable_of_unitsFrom_eq_ok {nodes : List Node} {taken : List (String × Path)}
    {units : List TypeUnit} (hu : (h.unitsFrom taken nodes).result = .ok units) :
    ∀ n ∈ nodes, h.isTopLevel n.path = true → ∀ p ∈ h.namedPaths n.path, p.isNameable = true := by
  induction nodes generalizing taken units with
  | nil => simp
  | cons n nodes ih =>
    cases ht : h.isTopLevel n.path with
    | true =>
      rw [unitsFrom_cons_of_isTopLevel ht] at hu
      obtain ⟨u, hunit, hu, -⟩ := Outcome.bind_eq_ok hu
      obtain ⟨-, -, hu, -⟩ := Outcome.bind_eq_ok hu
      obtain ⟨rest, hrest, -, -⟩ := Outcome.bind_eq_ok hu
      exact List.forall_mem_cons.mpr ⟨fun _ => (checkedUnit_eq_ok.mp hunit).1, ih hrest⟩
    | false =>
      rw [unitsFrom_cons_of_not_isTopLevel ht] at hu
      exact List.forall_mem_cons.mpr ⟨fun htop => absurd htop (by simp [ht]), ih hu⟩

theorem isNamed_of_mem_unitsFrom {nodes : List Node} {taken : List (String × Path)}
    {units : List TypeUnit} (hu : (h.unitsFrom taken nodes).result = .ok units) :
    ∀ u ∈ units, u.IsNamed := by
  intro u hm
  rw [(unitsFrom_eq_ok hu).1] at hm
  obtain ⟨n, hn, rfl⟩ := List.mem_map.mp hm
  obtain ⟨hn, ht⟩ := List.mem_filter.mp hn
  exact isNamed_unit (isNameable_of_unitsFrom_eq_ok hu n hn ht)

end Hierarchy

namespace Registry

/-- Units are only made when all paths that they name have names. -/
theorem isNamed_of_mem_units {r : Registry} {units : List TypeUnit}
    (hu : r.units.result = .ok units) {u : TypeUnit} (hm : u ∈ units) : u.IsNamed := by
  rw [units_eq] at hu
  exact Hierarchy.isNamed_of_mem_unitsFrom hu u hm

end Registry

end SignalTree
