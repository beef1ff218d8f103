import Mathlib.Data.List.Nodup
import SignalTree.Model.Basic
import SignalTree.Proofs.Ancestors

/-!
Types in types. What holds of a type and passes on to the types declared in it
holds of all types below it.
-/
namespace SignalTree.TypeDecl

theorem typesOf_eq_flatMap (ds : List TypeDecl) : typesOf ds = ds.flatMap types := by
  induction ds with
  | nil => simp [typesOf]
  | cons d ds ih => simp [typesOf, ih]

theorem types_eq (d : TypeDecl) : d.types = d :: typesOf d.nested := by
  cases d
  simp [types]

theorem self_mem_types (d : TypeDecl) : d ∈ d.types := by
  rw [types_eq]
  exact List.mem_cons_self

theorem mem_typesOf {d : TypeDecl} {ds : List TypeDecl} :
    d ∈ typesOf ds ↔ ∃ e ∈ ds, d ∈ e.types := by
  simp [typesOf_eq_flatMap]

theorem mem_types {d e : TypeDecl} : e ∈ d.types ↔ e = d ∨ ∃ t ∈ d.nested, e ∈ t.types := by
  rw [types_eq, List.mem_cons, mem_typesOf]

mutual

theorem types_induction {P : TypeDecl → Prop} (step : ∀ d e, P d → e ∈ d.nested → P e)
    (d : TypeDecl) (hd : P d) : ∀ e ∈ d.types, P e := by
  match d with
  | ⟨name, node, children, nested, implicit⟩ =>
    intro e he
    rw [types_eq] at he
    rcases List.mem_cons.mp he with rfl | he
    · exact hd
    · exact typesOf_induction step nested (fun t ht => step _ t hd ht) e he

theorem typesOf_induction {P : TypeDecl → Prop} (step : ∀ d e, P d → e ∈ d.nested → P e)
    (ds : List TypeDecl) (hds : ∀ d ∈ ds, P d) : ∀ e ∈ typesOf ds, P e := by
  match ds with
  | [] => simp [typesOf]
  | d :: rest =>
    intro e he
    rcases List.mem_append.mp he with he | he
    · exact types_induction step d (hds d List.mem_cons_self) e he
    · exact typesOf_induction step rest (fun t ht => hds t (List.mem_cons_of_mem _ ht)) e he

end

theorem mem_types_of_mem_nested {d t e : TypeDecl} (ht : t ∈ d.types) (he : e ∈ t.nested) :
    e ∈ d.types := by
  refine types_induction (P := fun t => ∀ e ∈ t.types, e ∈ d.types) ?_ d (fun _ h => h) t ht e ?_
  · intro t u hsub hu e he
    exact hsub e (mem_types.mpr (.inr ⟨u, hu, he⟩))
  · exact mem_types.mpr (.inr ⟨e, he, self_mem_types e⟩)

theorem mem_types_trans {d t e : TypeDecl} (ht : t ∈ d.types) (he : e ∈ t.types) : e ∈ d.types :=
  types_induction (P := (· ∈ d.types)) (fun _ _ => mem_types_of_mem_nested) t ht e he

/-- Every type declared in a type lies one segment below it, and no two lie at one path. -/
def Stepwise (d : TypeDecl) : Prop :=
  ∀ t ∈ d.types, (t.nested.map path).Nodup ∧ ∀ e ∈ t.nested, e.path.parent? = some t.path

theorem Stepwise.nested {d e : TypeDecl} (hd : d.Stepwise) (he : e ∈ d.nested) : e.Stepwise :=
  fun t ht => hd t (mem_types.mpr (.inr ⟨e, he, ht⟩))

theorem Stepwise.path_mem {d : TypeDecl} (hd : d.Stepwise) :
    ∀ e ∈ d.types, d.path ∈ e.path :: e.path.ancestors := by
  have key : ∀ e ∈ d.types, e ∈ d.types ∧ d.path ∈ e.path :: e.path.ancestors := by
    apply types_induction
    · rintro t e ⟨ht, hp⟩ he
      refine ⟨mem_types_of_mem_nested ht he, ?_⟩
      rw [Path.ancestors_of_parent? ((hd t ht).2 e he)]
      exact List.mem_cons_of_mem _ hp
    · exact ⟨self_mem_types d, List.mem_cons_self⟩
  exact fun e he => (key e he).2

mutual

theorem Stepwise.nodup_types (d : TypeDecl) (hd : d.Stepwise) : (d.types.map path).Nodup := by
  match d with
  | ⟨name, node, children, nested, implicit⟩ =>
    have hself := hd _ (self_mem_types _)
    have hnested : ∀ e ∈ nested, e.Stepwise := fun e he => hd.nested he
    rw [types_eq, List.map_cons, List.nodup_cons]
    refine ⟨?_, Stepwise.nodup_typesOf nested hnested node.path hself.2 hself.1⟩
    intro hmem
    obtain ⟨t, ht, hp⟩ := List.mem_map.mp hmem
    obtain ⟨e, he, ht⟩ := mem_typesOf.mp ht
    have hdepth := Path.depth_of_parent?_eq (hself.2 e he)
    rcases List.mem_cons.mp ((hnested e he).path_mem t ht) with heq | hlt
    · rw [heq, hp] at hdepth
      omega
    · have hlt := Path.depth_lt_of_mem_ancestors hlt
      rw [hp] at hlt
      omega

theorem Stepwise.nodup_typesOf (ds : List TypeDecl) (hds : ∀ d ∈ ds, d.Stepwise) (p : Path)
    (hp : ∀ d ∈ ds, d.path.parent? = some p) (hn : (ds.map path).Nodup) :
    ((typesOf ds).map path).Nodup := by
  match ds with
  | [] => simp [typesOf]
  | d :: rest =>
    rw [List.map_cons, List.nodup_cons] at hn
    rw [typesOf, List.map_append, List.nodup_append']
    refine ⟨Stepwise.nodup_types d (hds d List.mem_cons_self),
      Stepwise.nodup_typesOf rest (fun e he => hds e (List.mem_cons_of_mem _ he)) p
        (fun e he => hp e (List.mem_cons_of_mem _ he)) hn.2, ?_⟩
    intro q hq hq'
    obtain ⟨t, ht, rfl⟩ := List.mem_map.mp hq
    obtain ⟨t', ht', heq⟩ := List.mem_map.mp hq'
    obtain ⟨e, he, ht'⟩ := mem_typesOf.mp ht'
    have hd := (hds d List.mem_cons_self).path_mem t ht
    have he' := (hds e (List.mem_cons_of_mem _ he)).path_mem t' ht'
    rw [heq] at he'
    have hdepth : d.path.depth = e.path.depth := by
      rw [Path.depth_of_parent?_eq (hp d List.mem_cons_self),
        Path.depth_of_parent?_eq (hp e (List.mem_cons_of_mem _ he))]
    rw [Path.eq_of_depth_eq hd he' hdepth] at hn
    exact hn.1 (List.mem_map_of_mem he)

end

end SignalTree.TypeDecl
