import Mathlib.Data.List.Nodup
import SignalTree.Proofs.Name
import SignalTree.Proofs.TypeTree
import SignalTree.Source.Clash
import SignalTree.Source.Declare

/-!
Name clashes in the items of a unit. The check walks the types and the items are
built from them by a walk of their own; the check accepts a unit when no two items
in one place, and no two fields of one struct, have the same name.
-/
namespace SignalTree.Source

namespace Item

def name : Item → String
  | struct item => item.name
  | module name _ => name

mutual

def Distinct : Item → Prop
  | struct item => (valueField :: item.fields.map Field.name).Nodup
  | module _ items => (items.map name).Nodup ∧ EachDistinct items

def EachDistinct : List Item → Prop
  | [] => True
  | item :: rest => item.Distinct ∧ EachDistinct rest

end

def AllDistinct (items : List Item) : Prop := (items.map name).Nodup ∧ EachDistinct items

theorem eachDistinct_iff {items : List Item} : EachDistinct items ↔ ∀ i ∈ items, i.Distinct := by
  induction items with
  | nil => simp [EachDistinct]
  | cons i items ih => simp [EachDistinct, ih]

@[simp] theorem eachDistinct_append {xs ys : List Item} :
    EachDistinct (xs ++ ys) ↔ EachDistinct xs ∧ EachDistinct ys := by
  simp only [eachDistinct_iff, List.mem_append]
  grind

end Item

/-! Checks that decide a property, and blame the names if it fails. -/

def Decides (check : Except Fault α) (p : Prop) : Prop :=
  match check with
  | .ok _ => p
  | .error e => ¬p ∧ ∃ v, e = .invariant v

namespace Decides

variable {α β : Type} {p q : Prop}

theorem ok (a : α) (hp : p) : Decides (.ok a) p := hp

theorem congr {x : Except Fault α} (h : Decides x p) (hpq : p ↔ q) : Decides x q := by
  rwa [← hpq]

theorem bind {x : Except Fault α} {f : α → Except Fault β} (hx : Decides x p)
    (hf : ∀ a, x = .ok a → Decides (f a) q) : Decides (x >>= f) (p ∧ q) := by
  cases x with
  | error e => exact ⟨fun h => hx.1 h.1, hx.2⟩
  | ok a =>
    have hp : p := hx
    exact (hf a rfl).congr ⟨fun h => ⟨hp, h⟩, And.right⟩

theorem ok_iff {x : Except Fault α} (h : Decides x p) : (∃ a, x = .ok a) ↔ p := by
  cases x with
  | error e =>
    constructor
    · rintro ⟨a, ha⟩
      cases ha
    · intro hp
      exact (h.1 hp).elim
  | ok a => exact ⟨fun _ => h, fun _ => ⟨a, rfl⟩⟩

theorem error {x : Except Fault α} (h : Decides x p) {e : Fault} (he : x = .error e) :
    ∃ v, e = .invariant v := by
  subst he
  exact h.2

end Decides

/-- Names that are neither taken nor given twice. -/
def Fresh (taken names : List String) : Prop := names.Nodup ∧ ∀ n ∈ names, n ∉ taken

theorem fresh_nil (taken : List String) : Fresh taken [] := by simp [Fresh]

theorem fresh_cons {taken names : List String} {name : String} :
    Fresh taken (name :: names) ↔ name ∉ taken ∧ Fresh (name :: taken) names := by
  simp only [Fresh, List.nodup_cons, List.mem_cons]
  grind

theorem fresh_singleton {name : String} {names : List String} :
    Fresh [name] names ↔ (name :: names).Nodup := by
  simp only [Fresh, List.nodup_cons, List.mem_singleton]
  grind

theorem fresh_nothing {names : List String} : Fresh [] names ↔ names.Nodup := by simp [Fresh]

abbrev Claims.names (taken : Claims) : List String := taken.map Prod.fst

theorem lookup_eq_none_iff {taken : Claims} {name : String} :
    taken.lookup name = none ↔ name ∉ taken.names := by
  rw [List.lookup_eq_none_iff, Claims.names, List.mem_map]
  constructor
  · rintro h ⟨c, hc, rfl⟩
    simpa using h c hc
  · intro h c hc
    rw [bne_iff_ne]
    rintro rfl
    exact h ⟨c, hc, rfl⟩

theorem decides_claim (kind : NameKind) (taken : Claims) (name : String) (p : Path) :
    Decides (claim kind taken name p) (name ∉ taken.names) := by
  rw [← lookup_eq_none_iff, claim]
  cases taken.lookup name with
  | none => rfl
  | some first => exact ⟨nofun, _, rfl⟩

theorem names_of_claim {kind : NameKind} {taken taken' : Claims} {name : String} {p : Path}
    (h : claim kind taken name p = .ok taken') : taken'.names = name :: taken.names := by
  unfold claim at h
  split at h
  · cases h
  · cases h
    rfl

theorem decides_claims (kind : NameKind) (name : ChildRef → String) (cs : List ChildRef)
    (taken : Claims) :
    Decides (cs.foldlM (fun taken c => claim kind taken (name c) c.path) taken)
      (Fresh taken.names (cs.map name)) := by
  induction cs generalizing taken with
  | nil => exact .ok _ (fresh_nil _)
  | cons c cs ih =>
    rw [List.foldlM_cons, List.map_cons, fresh_cons]
    refine (decides_claim kind taken (name c) c.path).bind fun taken' h => ?_
    rw [← names_of_claim h]
    exact ih taken'

/-! The items that a unit declares. -/

/-- The modules that some types need, for the types in them. -/
def moduleNames (ds : List TypeDecl) : List String :=
  (ds.filter (!·.nested.isEmpty)).map fun d => nestedModule d.name

def FieldsDistinct (d : TypeDecl) : Prop :=
  (valueField :: d.children.map fun c => fieldName c.path).Nodup

theorem distinct_struct {isUnit : Bool} {depth : Nat} {parent : Option TypePath} {d : TypeDecl} :
    (Item.struct (structItem isUnit depth parent d)).Distinct ↔ FieldsDistinct d := by
  simp [Item.Distinct, structItem, FieldsDistinct, Function.comp_def]

theorem nestedItems_eq (depth : Nat) (parent : TypePath) (d : TypeDecl) :
    nestedItems depth parent d =
      .struct (structItem false depth (some parent) d) ::
        if d.nested.isEmpty then []
        else
          [.module (nestedModule d.name)
            (nestedItemsOf (depth + 1) ⟨[TypePath.upward], d.name⟩ d.nested)] := by
  cases d
  rw [nestedItems]

theorem names_nestedItemsOf (depth : Nat) (parent : TypePath) (ds : List TypeDecl) :
    ((nestedItemsOf depth parent ds).map Item.name).Perm
      (ds.map TypeDecl.name ++ moduleNames ds) := by
  induction ds with
  | nil => simp [nestedItemsOf, moduleNames]
  | cons d ds ih =>
    rw [nestedItemsOf, nestedItems_eq, List.map_append]
    by_cases hn : d.nested.isEmpty = true
    · simpa [hn, Item.name, structItem, moduleNames] using ih
    · rw [Bool.not_eq_true] at hn
      simp only [hn, moduleNames, Item.name, structItem, List.map_cons, List.filter_cons,
        List.cons_append, List.nil_append, List.map_nil, Bool.not_false, Bool.false_eq_true,
        if_true, if_false]
      exact ((ih.cons _).trans List.perm_middle.symm).cons _

theorem not_mem_moduleNames {name : String} (hname : IsTypeName name) (ds : List TypeDecl) :
    name ∉ moduleNames ds := by
  intro hmem
  obtain ⟨d, -, hd⟩ := List.mem_map.mp hmem
  exact hname.ne_moduleName d.name hd

theorem mem_names_nestedItemsOf {depth : Nat} {parent : TypePath} {ds : List TypeDecl}
    {name : String} (hname : IsTypeName name) :
    name ∈ (nestedItemsOf depth parent ds).map Item.name ↔ name ∈ ds.map TypeDecl.name := by
  rw [(names_nestedItemsOf depth parent ds).mem_iff, List.mem_append,
    or_iff_left (not_mem_moduleNames hname ds)]

theorem nodup_names_nestedItemsOf {depth : Nat} {parent : TypePath} {ds : List TypeDecl}
    (hds : ∀ d ∈ ds, IsTypeName d.name) :
    ((nestedItemsOf depth parent ds).map Item.name).Nodup ↔
      (ds.map TypeDecl.name).Nodup ∧ (moduleNames ds).Nodup := by
  rw [(names_nestedItemsOf depth parent ds).nodup_iff, List.nodup_append']
  refine ⟨fun h => ⟨h.1, h.2.1⟩, fun h => ⟨h.1, h.2, ?_⟩⟩
  intro name hname
  obtain ⟨d, hd, rfl⟩ := List.mem_map.mp hname
  exact not_mem_moduleNames (hds d hd) ds

theorem allDistinct_nestedItemsOf {depth : Nat} {parent : TypePath} {ds : List TypeDecl}
    (hds : ∀ d ∈ ds, IsTypeName d.name) :
    Item.AllDistinct (nestedItemsOf depth parent ds) ↔
      Fresh [] (ds.map TypeDecl.name) ∧ Fresh [] (moduleNames ds) ∧
        Item.EachDistinct (nestedItemsOf depth parent ds) := by
  rw [Item.AllDistinct, nodup_names_nestedItemsOf hds, fresh_nothing, fresh_nothing, and_assoc]

theorem eachDistinct_nestedItems {depth : Nat} {parent : TypePath} {d : TypeDecl} :
    Item.EachDistinct (nestedItems depth parent d) ↔
      FieldsDistinct d ∧
        Item.AllDistinct (nestedItemsOf (depth + 1) ⟨[TypePath.upward], d.name⟩ d.nested) := by
  rw [nestedItems_eq, Item.EachDistinct, distinct_struct]
  by_cases hn : d.nested.isEmpty = true
  · simp [List.isEmpty_iff.mp hn, Item.EachDistinct, nestedItemsOf, Item.AllDistinct]
  · simp [hn, Item.EachDistinct, Item.Distinct, Item.AllDistinct]

theorem decides_checkFields (d : TypeDecl) : Decides (checkFields d) (FieldsDistinct d) := by
  have h := decides_claims .field (fun c => fieldName c.path) d.children [(valueField, d.path)]
  rw [Claims.names, List.map_singleton, fresh_singleton] at h
  exact (h.bind fun _ _ => Decides.ok _ trivial).congr (and_iff_left trivial)

mutual

theorem decides_checkDecl (types : Claims) (depth : Nat) (parent : TypePath) (d : TypeDecl)
    (hnames : ∀ e ∈ TypeDecl.typesOf d.nested, IsTypeName e.name) :
    Decides (checkDecl types d)
      (FieldsDistinct d ∧ Fresh types.names (d.nested.map TypeDecl.name) ∧
        Fresh [] (moduleNames d.nested) ∧
        Item.EachDistinct (nestedItemsOf depth parent d.nested)) := by
  match d with
  | ⟨name, node, children, nested, implicit⟩ =>
    rw [checkDecl]
    exact (decides_checkFields _).bind fun _ _ =>
      decides_checkNested types [] depth parent nested hnames

theorem decides_checkNested (types modules : Claims) (depth : Nat) (parent : TypePath)
    (ds : List TypeDecl) (hnames : ∀ e ∈ TypeDecl.typesOf ds, IsTypeName e.name) :
    Decides (checkNested types modules ds)
      (Fresh types.names (ds.map TypeDecl.name) ∧ Fresh modules.names (moduleNames ds) ∧
        Item.EachDistinct (nestedItemsOf depth parent ds)) := by
  match ds with
  | [] => exact .ok _ ⟨fresh_nil _, fresh_nil _, trivial⟩
  | d :: rest =>
    have hd : ∀ e ∈ TypeDecl.typesOf d.nested, IsTypeName e.name := by
      intro e he
      refine hnames e (List.mem_append_left _ ?_)
      rw [TypeDecl.types_eq]
      exact List.mem_cons_of_mem _ he
    have hself : ∀ e ∈ d.nested, IsTypeName e.name := fun e he =>
      hd e (TypeDecl.mem_typesOf.mpr ⟨e, he, e.self_mem_types⟩)
    have hdecl := (decides_checkDecl [] (depth + 1) ⟨[TypePath.upward], d.name⟩ d hd).congr
      (q := Item.EachDistinct (nestedItems depth parent d)) (by
        rw [eachDistinct_nestedItems, allDistinct_nestedItemsOf hself]
        rfl)
    have hrest (types' modules' : Claims) :=
      decides_checkNested types' modules' depth parent rest
        fun e he => hnames e (List.mem_append_right _ he)
    rw [checkNested, List.map_cons, fresh_cons, nestedItemsOf, Item.eachDistinct_append]
    by_cases hn : d.nested.isEmpty = true
    · have hall := (decides_claim .type types d.name d.path).bind fun types' htypes =>
        hdecl.bind fun _ _ => (hrest types' modules).congr (by rw [names_of_claim htypes])
      simp only [hn, if_true]
      refine hall.congr ?_
      simp only [moduleNames, List.filter_cons, hn, Bool.not_true, Bool.false_eq_true, if_false]
      grind
    · have hall := (decides_claim .type types d.name d.path).bind fun types' htypes =>
        (decides_claim .module modules (moduleName d.name) d.path).bind fun modules' hmodules =>
          hdecl.bind fun _ _ => (hrest types' modules').congr (by
            rw [names_of_claim htypes, names_of_claim hmodules])
      rw [Bool.not_eq_true] at hn
      simp only [hn, Bool.false_eq_true, if_false]
      refine hall.congr ?_
      simp only [moduleNames, List.filter_cons, hn, Bool.not_false, if_true, List.map_cons,
        fresh_cons, nestedModule]
      grind

end

theorem decides_checkUnit {u : TypeUnit} (hnames : ∀ d ∈ u.types, IsTypeName d.name) :
    Decides (checkUnit u) (Item.AllDistinct (unitItems u)) := by
  rw [TypeUnit.types, TypeDecl.types_eq] at hnames
  have hself : IsTypeName u.decl.name := hnames _ List.mem_cons_self
  have hnested : ∀ d ∈ TypeDecl.typesOf u.decl.nested, IsTypeName d.name := fun d hd =>
    hnames d (List.mem_cons_of_mem _ hd)
  have hds : ∀ d ∈ u.decl.nested, IsTypeName d.name := fun d hd =>
    hnested d (TypeDecl.mem_typesOf.mpr ⟨d, hd, d.self_mem_types⟩)
  refine (decides_checkDecl _ 1 ⟨[], u.decl.name⟩ u.decl hnested).congr ?_
  have hname : (Item.struct (structItem true 1 (u.parent.map parentPath) u.decl)).name =
      u.decl.name := rfl
  rw [Item.AllDistinct, unitItems, Item.EachDistinct, distinct_struct, List.map_cons, hname,
    List.nodup_cons, mem_names_nestedItemsOf hself, nodup_names_nestedItemsOf hds, Claims.names,
    List.map_singleton, fresh_singleton, List.nodup_cons, fresh_nothing]
  grind

end SignalTree.Source
