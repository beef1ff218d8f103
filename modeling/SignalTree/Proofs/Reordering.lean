import Mathlib.Data.List.Forall2
import SignalTree.Proofs.NamesApart

/-!
Types and units in another order. The checks ask only which names stand together
(`NamesApart`), so a module is rendered in both orders or in none
(`renders_iff_of_pairsOff`).
-/
namespace SignalTree

/-- One list pairs off with some order of the other. -/
def PairsOff {α β : Type} (R : α → β → Prop) (as : List α) (bs : List β) : Prop :=
  ∃ matched, List.Forall₂ R as matched ∧ matched.Perm bs

namespace PairsOff

variable {α β : Type} {R : α → β → Prop} {as : List α} {bs : List β}

theorem exists_right (h : PairsOff R as bs) {a : α} (ha : a ∈ as) : ∃ b ∈ bs, R a b := by
  obtain ⟨matched, hpairs, hperm⟩ := h
  obtain ⟨i, hi, rfl⟩ := List.getElem_of_mem ha
  have hlt : i < matched.length := hpairs.length_eq ▸ hi
  exact ⟨matched[i], hperm.mem_iff.mp (List.getElem_mem hlt), hpairs.get hi hlt⟩

theorem exists_left (h : PairsOff R as bs) {b : β} (hb : b ∈ bs) : ∃ a ∈ as, R a b := by
  obtain ⟨matched, hpairs, hperm⟩ := h
  obtain ⟨i, hi, rfl⟩ := List.getElem_of_mem (hperm.mem_iff.mpr hb)
  have hlt : i < as.length := hpairs.length_eq ▸ hi
  exact ⟨as[i], List.getElem_mem hlt, hpairs.get hlt hi⟩

theorem perm_map {γ : Type} {f : α → γ} {g : β → γ} (h : PairsOff R as bs)
    (hfg : ∀ a b, R a b → f a = g b) : (as.map f).Perm (bs.map g) := by
  obtain ⟨matched, hpairs, hperm⟩ := h
  have heq : as.map f = matched.map g := by
    induction hpairs generalizing bs with
    | nil => rfl
    | cons hab _ ih => rw [List.map_cons, List.map_cons, hfg _ _ hab, ih (List.Perm.refl _)]
  exact heq ▸ hperm.map g

theorem of_perm_map {ks ks' : List γ} {f : γ → α} {g : γ → β} (hperm : ks.Perm ks')
    (hfg : ∀ k ∈ ks, R (f k) (g k)) : PairsOff R (ks.map f) (ks'.map g) := by
  refine ⟨ks.map g, ?_, hperm.map g⟩
  rw [List.forall₂_map_left_iff, List.forall₂_map_right_iff]
  exact List.forall₂_same.mpr hfg

end PairsOff

/-- One type is the other with its children and the types in it in another order, at every
depth. -/
inductive TypeDecl.Reordered : TypeDecl → TypeDecl → Prop
  | intro {d e : TypeDecl} {matched : List TypeDecl} (name : d.name = e.name)
    (node : d.node = e.node) (implicit : d.implicit = e.implicit)
    (children : d.children.Perm e.children)
    (nested : List.Forall₂ TypeDecl.Reordered d.nested matched)
    (perm : matched.Perm e.nested) : TypeDecl.Reordered d e

namespace TypeDecl.Reordered

variable {d e : TypeDecl}

theorem of_pairsOff (name : d.name = e.name) (node : d.node = e.node)
    (implicit : d.implicit = e.implicit) (children : d.children.Perm e.children)
    (nested : PairsOff Reordered d.nested e.nested) : d.Reordered e := by
  obtain ⟨_, hpairs, hperm⟩ := nested
  exact .intro name node implicit children hpairs hperm

theorem name_eq (h : d.Reordered e) : d.name = e.name := by
  cases h; assumption

theorem perm_children (h : d.Reordered e) : d.children.Perm e.children := by
  cases h; assumption

theorem pairsOff_nested (h : d.Reordered e) : PairsOff Reordered d.nested e.nested := by
  cases h with
  | intro _ _ _ _ nested perm => exact ⟨_, nested, perm⟩

theorem isEmpty_nested (h : d.Reordered e) : d.nested.isEmpty = e.nested.isEmpty := by
  have hperm := h.pairsOff_nested.perm_map fun a b hab => name_eq hab
  simpa using hperm.isEmpty_eq

theorem exists_right (h : d.Reordered e) {t : TypeDecl} (ht : t ∈ d.types) :
    ∃ t' ∈ e.types, t.Reordered t' := by
  refine types_induction (P := fun t => ∃ t' ∈ e.types, t.Reordered t') ?_ d
    ⟨e, self_mem_types e, h⟩ t ht
  rintro t s ⟨t', ht', hr⟩ hs
  obtain ⟨s', hs', hr'⟩ := hr.pairsOff_nested.exists_right hs
  exact ⟨s', mem_types_of_mem_nested ht' hs', hr'⟩

theorem exists_left (h : d.Reordered e) {t' : TypeDecl} (ht : t' ∈ e.types) :
    ∃ t ∈ d.types, t.Reordered t' := by
  refine types_induction (P := fun t' => ∃ t ∈ d.types, t.Reordered t') ?_ e
    ⟨d, self_mem_types d, h⟩ t' ht
  rintro t' s' ⟨t, ht, hr⟩ hs
  obtain ⟨s, hs, hr'⟩ := hr.pairsOff_nested.exists_left hs
  exact ⟨s, mem_types_of_mem_nested ht hs, hr'⟩

end TypeDecl.Reordered

structure TypeUnit.Reordered (u v : TypeUnit) : Prop where
  decl : u.decl.Reordered v.decl
  parent : u.parent = v.parent

namespace Source

theorem moduleNames_eq (ds : List TypeDecl) : moduleNames ds =
    ((ds.map fun d => (d.name, d.nested.isEmpty)).filter (!·.2)).map fun d => nestedModule d.1 := by
  rw [List.filter_map, List.map_map]
  rfl

theorem NamesApart.iff_of_reordered {d e : TypeDecl} (h : d.Reordered e) :
    NamesApart d ↔ NamesApart e := by
  have hfields := (h.perm_children.map fun c => fieldName c.path).cons valueField
  have htypes := h.pairsOff_nested.perm_map fun _ _ hab => hab.name_eq
  have hmodules : (moduleNames d.nested).Perm (moduleNames e.nested) := by
    rw [moduleNames_eq, moduleNames_eq]
    refine (List.Perm.filter _ (h.pairsOff_nested.perm_map fun _ _ hab => ?_)).map _
    rw [hab.name_eq, hab.isEmpty_nested]
  rw [namesApart_iff, namesApart_iff, FieldsDistinct, FieldsDistinct, hfields.nodup_iff,
    htypes.nodup_iff, hmodules.nodup_iff]

theorem checkUnit_isOk_iff_of_reordered {u v : TypeUnit} (h : u.Reordered v)
    (hu : ∀ t ∈ u.types, IsTypeName t.name) (hv : ∀ t ∈ v.types, IsTypeName t.name) :
    (∃ x, checkUnit u = .ok x) ↔ ∃ x, checkUnit v = .ok x := by
  have htypes : (∀ t ∈ u.types, NamesApart t) ↔ ∀ t ∈ v.types, NamesApart t := by
    constructor
    · intro hall t ht
      obtain ⟨s, hs, hr⟩ := h.decl.exists_left ht
      exact (NamesApart.iff_of_reordered hr).mp (hall s hs)
    · intro hall t ht
      obtain ⟨s, hs, hr⟩ := h.decl.exists_right ht
      exact (NamesApart.iff_of_reordered hr).mpr (hall s hs)
  have hnames := h.decl.pairsOff_nested.perm_map fun _ _ hab => hab.name_eq
  rw [checkUnit_isOk_iff hu, checkUnit_isOk_iff hv, htypes, h.decl.name_eq, hnames.mem_iff]

theorem renders_iff_of_pairsOff {units units' : List TypeUnit} (module : String)
    (h : PairsOff TypeUnit.Reordered units units')
    (hunits : ∀ u ∈ units, ∀ t ∈ u.types, IsTypeName t.name)
    (hunits' : ∀ u ∈ units', ∀ t ∈ u.types, IsTypeName t.name) :
    (∃ files, (renderModule units module).result = .ok files) ↔
      ∃ files, (renderModule units' module).result = .ok files := by
  have hchecks : (∀ u ∈ units, ∃ x, checkUnit u = .ok x) ↔
      ∀ u ∈ units', ∃ x, checkUnit u = .ok x := by
    constructor
    · intro hall v hv
      obtain ⟨u, hu, hr⟩ := h.exists_left hv
      exact (checkUnit_isOk_iff_of_reordered hr (hunits u hu) (hunits' v hv)).mp (hall u hu)
    · intro hall u hu
      obtain ⟨v, hv, hr⟩ := h.exists_right hu
      exact (checkUnit_isOk_iff_of_reordered hr (hunits u hu) (hunits' v hv)).mpr (hall v hv)
  have hmodules : (units.map fun u => moduleName u.decl.name).Perm
      (units'.map fun u => moduleName u.decl.name) :=
    h.perm_map fun _ _ hr => by rw [hr.decl.name_eq]
  rw [renderModule_isOk_iff module fun u hu => hunits u hu _ (TypeDecl.self_mem_types _),
    renderModule_isOk_iff module fun u hu => hunits' u hu _ (TypeDecl.self_mem_types _), hchecks,
    hmodules.nodup_iff]

end Source

end SignalTree
