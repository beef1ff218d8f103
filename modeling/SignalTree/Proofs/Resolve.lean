import SignalTree.Proofs.Clash
import SignalTree.Proofs.ItemDecl

/-!
What a path means in a tree of modules. A path leads from the module that it stands in
to the structs of its last name. Where no two items share a name, every module stands
at one location, and a name leads to one struct.
-/
namespace SignalTree.Source

/-- The modules that lead from the index to a module. -/
abbrev Location := List String

namespace Decl

def inside (name : String) : Decl → List (List Decl)
  | module n decls => if n = name then [decls] else []
  | _ => []

def structs (name : String) : Decl → List (List Field)
  | struct n fields => if n = name then [fields] else []
  | _ => []

def paths (name : String) : Decl → List String
  | impl item => if item.type = name then item.paths else []
  | _ => []

end Decl

/-- The modules at a location below some declarations. -/
def scopesAt : Location → List Decl → List (List Decl)
  | [], decls => [decls]
  | m :: rest, decls => (decls.flatMap (Decl.inside m)).flatMap (scopesAt rest)

/-- A struct where it is declared. -/
structure Declared where
  location : Location
  name : String
  fields : List Field

def structsAt (root : List Decl) (loc : Location) (name : String) : List Declared :=
  (scopesAt loc root).flatMap fun decls =>
    (decls.flatMap (Decl.structs name)).map fun fields => ⟨loc, name, fields⟩

def Declared.paths (root : List Decl) (s : Declared) : List String :=
  (scopesAt s.location root).flatMap fun decls => decls.flatMap (Decl.paths s.name)

/-- Where the modules of a path lead. Steps up come first, and none leads out of the index. -/
def walk (loc : Location) : List String → Option Location
  | [] => some loc
  | m :: rest =>
    if m = TypePath.upward then
      if loc = [] then none else walk loc.dropLast rest
    else if TypePath.upward ∈ rest then none
    else some (loc ++ m :: rest)

/-- The structs that a path means at a location. -/
def resolve (root : List Decl) (loc : Location) (p : TypePath) : List Declared :=
  match walk loc p.modules with
  | none => []
  | some target => structsAt root target p.name

theorem scopesAt_append (loc loc' : Location) (decls : List Decl) :
    scopesAt (loc ++ loc') decls = (scopesAt loc decls).flatMap (scopesAt loc') := by
  induction loc generalizing decls with
  | nil => rw [List.nil_append, scopesAt, List.flatMap_singleton]
  | cons m loc ih =>
    rw [List.cons_append, scopesAt, scopesAt, List.flatMap_assoc (l := decls.flatMap _)]
    exact List.flatMap_congr fun inner _ => ih inner

theorem scopesAt_singleton (m : String) (decls : List Decl) :
    scopesAt [m] decls = decls.flatMap (Decl.inside m) := by
  rw [scopesAt]
  simp [scopesAt, List.flatMap_singleton']

theorem resolve_of_walk {root : List Decl} {loc target : Location} {p : TypePath}
    (h : walk loc p.modules = some target) : resolve root loc p = structsAt root target p.name := by
  rw [resolve, h]

theorem walk_upward (loc : Location) (rest : List String) :
    walk loc (List.replicate loc.length TypePath.upward ++ rest) = walk [] rest := by
  induction loc using List.reverseRecOn with
  | nil => rfl
  | append_singleton loc m ih =>
    rw [List.length_append, List.length_singleton, List.replicate_succ, List.cons_append, walk,
      if_pos rfl, if_neg (by simp), List.dropLast_concat, ih]

theorem walk_of_not_mem {names : List String} (h : TypePath.upward ∉ names) (loc : Location) :
    walk loc names = some (loc ++ names) := by
  cases names with
  | nil => rw [walk, List.append_nil]
  | cons m rest =>
    rw [List.mem_cons, not_or] at h
    rw [walk, if_neg (Ne.symm h.1), if_neg h.2]

namespace Item

theorem declsOf_eq_flatMap (items : List Item) : declsOf items = items.flatMap decls := by
  induction items with
  | nil => rfl
  | cons i rest ih => rw [declsOf, ih, List.flatMap_cons]

/-- What only items of a name declare is what the one item of this name declares. -/
theorem flatMap_declsOf {α : Type} {items : List Item} (hn : (items.map name).Nodup) {i : Item}
    (hi : i ∈ items) (n : String) (hname : i.name = n) {f : Decl → List α}
    (hf : ∀ j : Item, j.name ≠ n → j.decls.flatMap f = []) :
    (declsOf items).flatMap f = i.decls.flatMap f := by
  induction items with
  | nil => simp at hi
  | cons j rest ih =>
    rw [List.map_cons, List.nodup_cons] at hn
    rw [declsOf, List.flatMap_append]
    rcases List.mem_cons.mp hi with rfl | hi
    · have hrest : (declsOf rest).flatMap f = [] := by
        rw [declsOf_eq_flatMap, List.flatMap_assoc]
        refine List.flatMap_eq_nil_iff.mpr fun k hk => hf k ?_
        intro heq
        exact hn.1 (hname.trans heq.symm ▸ List.mem_map_of_mem hk)
      rw [hrest, List.append_nil]
    · have hj : j.name ≠ n := by
        intro heq
        exact hn.1 (heq.trans hname.symm ▸ List.mem_map_of_mem hi)
      rw [hf j hj, List.nil_append, ih hn.2 hi]

theorem structs_decls {i : Item} {n : String} (h : i.name ≠ n) :
    i.decls.flatMap (Decl.structs n) = [] := by
  cases i with
  | struct s =>
    have hs : s.name ≠ n := h
    cases hp : s.parent <;> simp [decls, StructItem.decls, Decl.structs, hs, hp]
  | module m items => simp [decls, Decl.structs]

theorem paths_decls {i : Item} {n : String} (h : i.name ≠ n) :
    i.decls.flatMap (Decl.paths n) = [] := by
  cases i with
  | struct s =>
    have hs : s.name ≠ n := h
    cases hp : s.parent <;> simp [decls, StructItem.decls, Decl.paths, hs, hp]
  | module m items => simp [decls, Decl.paths]

theorem inside_decls {i : Item} {n : String} (h : i.name ≠ n) :
    i.decls.flatMap (Decl.inside n) = [] := by
  cases i with
  | struct s => cases hp : s.parent <;> simp [decls, StructItem.decls, Decl.inside, hp]
  | module m items =>
    have hm : m ≠ n := h
    simp [decls, Decl.inside, hm]

theorem mem_inside_decls {i : Item} {n : String} {inner : List Decl}
    (h : inner ∈ i.decls.flatMap (Decl.inside n)) :
    ∃ items, i = .module n items ∧ inner = declsOf items := by
  cases i with
  | struct s =>
    exfalso
    cases hp : s.parent <;> simp [decls, StructItem.decls, Decl.inside, hp] at h
  | module m items =>
    simp only [decls, List.flatMap_singleton, Decl.inside] at h
    split at h
    · next hm => exact ⟨items, by rw [hm], List.mem_singleton.mp h⟩
    · simp at h

variable {items : List Item}

theorem structs_declsOf (hn : (items.map name).Nodup) {s : StructItem} (hs : .struct s ∈ items) :
    (declsOf items).flatMap (Decl.structs s.name) =
      [⟨valueField, .ofText s.value.rustType⟩ :: s.fields] := by
  rw [flatMap_declsOf hn hs s.name rfl fun j hj => structs_decls hj]
  cases hp : s.parent <;> simp [decls, StructItem.decls, Decl.structs, hp]

theorem paths_declsOf (hn : (items.map name).Nodup) {s : StructItem} (hs : .struct s ∈ items) :
    (declsOf items).flatMap (Decl.paths s.name) = s.paths := by
  rw [flatMap_declsOf hn hs s.name rfl fun j hj => paths_decls hj]
  cases hp : s.parent <;> simp [decls, StructItem.decls, Decl.paths, hp]

theorem inside_declsOf (hn : (items.map name).Nodup) {m : String} {inner : List Item}
    (hm : .module m inner ∈ items) : (declsOf items).flatMap (Decl.inside m) = [declsOf inner] := by
  rw [flatMap_declsOf hn hm m rfl fun j hj => inside_decls hj]
  simp [decls, Decl.inside]

end Item

/-- The items of the modules below some items, with the locations of the modules. -/
inductive Scope (root : List Item) : Location → List Item → Prop
  | index : Scope root [] root
  | inside {loc : Location} {items : List Item} {m : String} {inner : List Item}
      (h : Scope root loc items) (hm : .module m inner ∈ items) : Scope root (loc ++ [m]) inner

namespace Scope

variable {root : List Item} {loc : Location} {items : List Item}

theorem allDistinct (hroot : Item.AllDistinct root) (h : Scope root loc items) :
    Item.AllDistinct items := by
  induction h with
  | index => exact hroot
  | inside h hm ih => exact Item.eachDistinct_iff.mp ih.2 _ hm

theorem scopesAt_eq (hroot : Item.AllDistinct root) (h : Scope root loc items) :
    scopesAt loc (Item.declsOf root) = [Item.declsOf items] := by
  induction h with
  | index => rfl
  | inside h hm ih =>
    rw [scopesAt_append, ih, List.flatMap_singleton, scopesAt_singleton,
      Item.inside_declsOf (h.allDistinct hroot).1 hm]

theorem exists_of_mem_scopesAt {decls : List Decl}
    (h : decls ∈ scopesAt loc (Item.declsOf root)) :
    ∃ items, Scope root loc items ∧ decls = Item.declsOf items := by
  induction loc using List.reverseRecOn generalizing decls with
  | nil => exact ⟨root, .index, List.mem_singleton.mp h⟩
  | append_singleton loc m ih =>
    rw [scopesAt_append, List.mem_flatMap] at h
    obtain ⟨outer, houter, hdecls⟩ := h
    obtain ⟨items, hitems, rfl⟩ := ih houter
    rw [scopesAt_singleton, Item.declsOf_eq_flatMap, List.flatMap_assoc, List.mem_flatMap] at hdecls
    obtain ⟨i, hi, hdecls⟩ := hdecls
    obtain ⟨inner, rfl, rfl⟩ := Item.mem_inside_decls hdecls
    exact ⟨inner, hitems.inside hi, rfl⟩

end Scope

def StructItem.declaredAt (s : StructItem) (loc : Location) : Declared :=
  ⟨loc, s.name, ⟨valueField, .ofText s.value.rustType⟩ :: s.fields⟩

namespace Scope

variable {root : List Item} {loc : Location} {items : List Item} {s : StructItem}

theorem structsAt_eq (hroot : Item.AllDistinct root) (h : Scope root loc items)
    (hs : .struct s ∈ items) :
    structsAt (Item.declsOf root) loc s.name = [s.declaredAt loc] := by
  rw [structsAt, h.scopesAt_eq hroot, List.flatMap_singleton,
    Item.structs_declsOf (h.allDistinct hroot).1 hs]
  rfl

theorem paths_declaredAt (hroot : Item.AllDistinct root) (h : Scope root loc items)
    (hs : .struct s ∈ items) : (s.declaredAt loc).paths (Item.declsOf root) = s.paths := by
  change ((scopesAt loc (Item.declsOf root)).flatMap fun decls =>
    decls.flatMap (Decl.paths s.name)) = _
  rw [h.scopesAt_eq hroot, List.flatMap_singleton, Item.paths_declsOf (h.allDistinct hroot).1 hs]

end Scope

end SignalTree.Source
