import Mathlib.Data.List.Nodup
import SignalTree.Workspace.FileTree

/-!
What stands where in a tree of files. A change of one directory shows below that directory
and nowhere else (`kindAt?_change`), and changes of one directory come down to changes of its
entries (`change_congr`), so undoing a change gives the tree back.
-/
namespace SignalTree.FileTree

/-! Entries of a directory. -/

section Entries

variable {name n : String} {t : FileTree} {es : List (String × FileTree)}

theorem lookup_eq_none_iff_not_mem : es.lookup name = none ↔ name ∉ es.map Prod.fst := by
  rw [List.lookup_eq_none_iff, List.mem_map]
  constructor
  · rintro h ⟨e, he, rfl⟩
    simpa using h e he
  · intro h e he
    rw [bne_iff_ne]
    rintro rfl
    exact h ⟨e, he, rfl⟩

theorem mem_of_lookup (h : es.lookup name = some t) : (name, t) ∈ es := by
  obtain ⟨before, rest, rfl, -⟩ := List.lookup_eq_some_iff.mp h
  simp

theorem lookup_of_mem (hes : (es.map Prod.fst).Nodup) (h : (name, t) ∈ es) :
    es.lookup name = some t := by
  cases hl : es.lookup name with
  | none => exact absurd (List.mem_map_of_mem h) (lookup_eq_none_iff_not_mem.mp hl)
  | some s => rw [(Prod.mk.inj (List.inj_on_of_nodup_map hes h (mem_of_lookup hl) rfl)).2]

theorem lookup_map (g : String → FileTree → FileTree) :
    (es.map fun (k, s) => (k, g k s)).lookup name = (es.lookup name).map (g name) := by
  induction es with
  | nil => rfl
  | cons e es ih =>
    rw [List.map_cons, List.lookup_cons, List.lookup_cons]
    cases hk : name == e.1 with
    | true => rw [eq_of_beq hk]; rfl
    | false => exact ih

theorem lookup_change (f : List (String × FileTree) → List (String × FileTree)) (p : Place) :
    (es.map fun (k, s) => (k, if k = name then s.change f p else s)).lookup n =
      (es.lookup n).map fun s => if n = name then s.change f p else s :=
  lookup_map fun k s => if k = name then s.change f p else s

theorem setEntry_of_not_mem (h : name ∉ es.map Prod.fst) :
    setEntry name t es = es ++ [(name, t)] := by
  induction es with
  | nil => rfl
  | cons e es ih =>
    rw [List.map_cons, List.mem_cons, not_or] at h
    rw [setEntry, if_neg (Ne.symm h.1), ih h.2, List.cons_append]

theorem lookup_setEntry : (setEntry name t es).lookup n = if n = name then some t else es.lookup n := by
  induction es with
  | nil => grind [setEntry]
  | cons e es ih => grind [setEntry]

theorem mem_setEntry {e : String × FileTree} (h : e ∈ setEntry name t es) :
    e = (name, t) ∨ e ∈ es := by
  induction es with
  | nil => exact .inl (List.mem_singleton.mp h)
  | cons head es ih =>
    rw [setEntry] at h
    split at h
    · next hn =>
      rcases List.mem_cons.mp h with rfl | h
      · exact .inl (by rw [hn])
      · exact .inr (List.mem_cons_of_mem _ h)
    · rcases List.mem_cons.mp h with rfl | h
      · exact .inr List.mem_cons_self
      · exact (ih h).imp_right (List.mem_cons_of_mem _)

theorem map_fst_setEntry (h : name ∈ es.map Prod.fst) :
    (setEntry name t es).map Prod.fst = es.map Prod.fst := by
  induction es with
  | nil => cases h
  | cons e es ih =>
    rw [setEntry]
    split
    · rfl
    · next he =>
      rw [List.map_cons, List.map_cons, ih ((List.mem_cons.mp h).resolve_left (Ne.symm he))]

theorem eraseEntry_of_not_mem (h : name ∉ es.map Prod.fst) : eraseEntry name es = es := by
  rw [eraseEntry, List.filter_eq_self]
  intro e he
  rw [bne_iff_ne]
  rintro rfl
  exact h (List.mem_map_of_mem he)

theorem not_mem_eraseEntry : name ∉ (eraseEntry name es).map Prod.fst := by
  rintro h
  obtain ⟨e, he, rfl⟩ := List.mem_map.mp h
  simpa [eraseEntry] using (List.mem_filter.mp he).2

theorem lookup_eraseEntry :
    (eraseEntry name es).lookup n = if n = name then none else es.lookup n := by
  split
  · next h => rw [h, lookup_eq_none_iff_not_mem.mpr not_mem_eraseEntry]
  · next h =>
    induction es with
    | nil => rfl
    | cons e es ih =>
      rw [eraseEntry, List.filter_cons, List.lookup_cons]
      split
      · rw [List.lookup_cons, ← eraseEntry, ih]
      · next he =>
        have hne : n ≠ e.1 := fun heq => h (heq.trans (by simpa using he))
        rw [← eraseEntry, ih, beq_eq_false_iff_ne.mpr hne]

theorem eraseEntry_comm (name name' : String) (es : List (String × FileTree)) :
    eraseEntry name (eraseEntry name' es) = eraseEntry name' (eraseEntry name es) := by
  rw [eraseEntry, eraseEntry, eraseEntry, eraseEntry, List.filter_filter, List.filter_filter]
  simp only [Bool.and_comm]

theorem eraseEntry_setEntry (h : name ∉ es.map Prod.fst) :
    eraseEntry name (setEntry name t es) = es := by
  rw [setEntry_of_not_mem h, eraseEntry, List.filter_append, ← eraseEntry, eraseEntry_of_not_mem h]
  simp

end Entries

/-! Places. -/

section Places

variable {t : FileTree} {es : List (String × FileTree)}

@[simp] theorem at?_nil (t : FileTree) : t.at? [] = some t := by
  cases t <;> rfl

@[simp] theorem at?_file_cons (content : ByteArray) (name : String) (rest : Place) :
    (file content).at? (name :: rest) = none := rfl

@[simp] theorem at?_directory_cons (es : List (String × FileTree)) (name : String) (rest : Place) :
    (directory es).at? (name :: rest) = (es.lookup name).bind (·.at? rest) := rfl

theorem at?_append (t : FileTree) (p q : Place) : t.at? (p ++ q) = (t.at? p).bind (·.at? q) := by
  induction p generalizing t with
  | nil => simp
  | cons name p ih =>
    cases t with
    | file content => rfl
    | directory es =>
      rw [List.cons_append, at?_directory_cons, at?_directory_cons, Option.bind_assoc]
      simp only [ih]

theorem at?_concat {p : Place} {name : String} {s : FileTree} :
    t.at? (p ++ [name]) = some s ↔ ∃ es, t.at? p = some (directory es) ∧ es.lookup name = some s := by
  rw [at?_append, Option.bind_eq_some_iff]
  constructor
  · rintro ⟨u, hu, hs⟩
    cases u with
    | file content => cases hs
    | directory es => exact ⟨es, hu, by simpa using hs⟩
  · rintro ⟨es, hes, hs⟩
    exact ⟨_, hes, by simpa using hs⟩

/-- What a place has of its own, apart from what is in it. -/
inductive Kind where
  | file (content : ByteArray)
  | directory

def kind : FileTree → Kind
  | file content => .file content
  | directory _ => .directory

def kindAt? (t : FileTree) (p : Place) : Option Kind := (t.at? p).map kind

theorem kindAt?_eq_file {p : Place} {content : ByteArray} :
    t.kindAt? p = some (.file content) ↔ t.at? p = some (file content) := by
  rw [kindAt?]
  rcases t.at? p with _ | (_ | _) <;> simp [kind]

theorem kindAt?_eq_directory {p : Place} :
    t.kindAt? p = some .directory ↔ ∃ es, t.at? p = some (directory es) := by
  rw [kindAt?]
  rcases t.at? p with _ | (_ | _) <;> simp [kind]

theorem kindAt?_eq_none {p : Place} : t.kindAt? p = none ↔ t.at? p = none := by
  rw [kindAt?, Option.map_eq_none_iff]

/-! Changes of one directory. -/

theorem change_change (f g : List (String × FileTree) → List (String × FileTree)) (p : Place)
    (t : FileTree) : (t.change f p).change g p = t.change (g ∘ f) p := by
  induction p generalizing t with
  | nil => cases t <;> rfl
  | cons name p ih =>
    cases t with
    | file content => rfl
    | directory es =>
      simp only [change, List.map_map, directory.injEq]
      refine List.map_congr_left fun e _ => ?_
      by_cases he : e.1 = name <;> simp [he, ih]

theorem change_concat (f : List (String × FileTree) → List (String × FileTree)) (p : Place)
    (name : String) (t : FileTree) : t.change f (p ++ [name]) =
      t.change (fun es => es.map fun (n, s) => (n, if n = name then s.change f [] else s)) p := by
  induction p generalizing t with
  | nil => cases t <;> rfl
  | cons head p ih =>
    cases t with
    | file content => rfl
    | directory es => simp only [List.cons_append, change, ih]

theorem exists_change_eq {f : List (String × FileTree) → List (String × FileTree)}
    (h : ∃ es, t = .directory es) (p : Place) : ∃ es, t.change f p = .directory es := by
  obtain ⟨es, rfl⟩ := h
  cases p <;> exact ⟨_, rfl⟩

theorem at?_change_append {f : List (String × FileTree) → List (String × FileTree)} {p : Place}
    (hp : t.at? p = some (directory es)) (q : Place) :
    (t.change f p).at? (p ++ q) = (directory (f es)).at? q := by
  induction p generalizing t with
  | nil =>
    cases (Option.some.inj ((at?_nil t).symm.trans hp))
    rfl
  | cons name p ih =>
    cases t with
    | file content => cases hp
    | directory entries =>
      rw [at?_directory_cons] at hp
      obtain ⟨s, hs, hp⟩ := Option.bind_eq_some_iff.mp hp
      rw [change, List.cons_append, at?_directory_cons, lookup_change, hs, Option.map_some,
        if_pos rfl]
      exact ih hp

theorem kindAt?_change {f : List (String × FileTree) → List (String × FileTree)} {p q : Place}
    (hq : ¬p <+: q) : (t.change f p).kindAt? q = t.kindAt? q := by
  induction p generalizing t q with
  | nil => exact absurd List.nil_prefix hq
  | cons name p ih =>
    cases t with
    | file content => rfl
    | directory entries =>
      cases q with
      | nil => rfl
      | cons head q =>
        rw [kindAt?, kindAt?, change, at?_directory_cons, at?_directory_cons, lookup_change]
        cases entries.lookup head with
        | none => rfl
        | some s =>
          by_cases hn : head = name
          · have hq : ¬p <+: q := fun h => hq (hn ▸ List.cons_prefix_cons.mpr ⟨rfl, h⟩)
            simpa [hn, kindAt?] using ih hq
          · simp [hn]

/-- A change of one entry shows at that entry and below it. -/
theorem kindAt?_change_entry {f : List (String × FileTree) → List (String × FileTree)} {p q : Place}
    {name : String} (hp : t.at? p = some (directory es))
    (hf : ∀ n, n ≠ name → (f es).lookup n = es.lookup n) (hq : ¬p ++ [name] <+: q) :
    (t.change f p).kindAt? q = t.kindAt? q := by
  by_cases hpq : p <+: q
  · obtain ⟨q, rfl⟩ := hpq
    rw [kindAt?, kindAt?, at?_change_append hp, at?_append, hp, Option.bind_some]
    cases q with
    | nil => rfl
    | cons head q =>
      have hne : head ≠ name := by
        rintro rfl
        exact hq ⟨q, by simp⟩
      rw [at?_directory_cons, at?_directory_cons, hf head hne]
  · exact kindAt?_change hpq

theorem put_concat (t : FileTree) (p : Place) (name : String) (new : FileTree) :
    t.put (p ++ [name]) new = t.change (setEntry name new) p := by
  simp [put]

theorem erase_concat (t : FileTree) (p : Place) (name : String) :
    t.erase (p ++ [name]) = t.change (eraseEntry name) p := by
  simp [erase]

theorem exists_put_eq (h : ∃ es, t = .directory es) (p : Place) (name : String) (new : FileTree) :
    ∃ es, t.put (p ++ [name]) new = .directory es :=
  put_concat t p name new ▸ exists_change_eq h p

theorem exists_erase_eq (h : ∃ es, t = .directory es) (p : Place) (name : String) :
    ∃ es, t.erase (p ++ [name]) = .directory es :=
  erase_concat t p name ▸ exists_change_eq h p

theorem at?_put_append {p : Place} {name : String} {new : FileTree}
    (hp : t.at? p = some (directory es)) (q : Place) :
    (t.put (p ++ [name]) new).at? (p ++ [name] ++ q) = new.at? q := by
  rw [put_concat, List.append_assoc, at?_change_append hp, List.singleton_append, at?_directory_cons,
    lookup_setEntry, if_pos rfl, Option.bind_some]

theorem at?_put {p : Place} {name : String} {new : FileTree} (hp : t.at? p = some (directory es)) :
    (t.put (p ++ [name]) new).at? (p ++ [name]) = some new := by
  have h : (t.put (p ++ [name]) new).at? (p ++ [name] ++ []) = new.at? [] := at?_put_append hp []
  rwa [List.append_nil, at?_nil] at h

theorem kindAt?_put {p q : Place} {name : String} {new : FileTree}
    (hp : t.at? p = some (directory es)) (hq : ¬p ++ [name] <+: q) :
    (t.put (p ++ [name]) new).kindAt? q = t.kindAt? q := by
  rw [put_concat]
  refine kindAt?_change_entry hp (fun n hn => ?_) hq
  rw [lookup_setEntry, if_neg hn]

theorem at?_put_parent {p : Place} {name : String} {new : FileTree}
    (hp : t.at? p = some (directory es)) :
    (t.put (p ++ [name]) new).at? p = some (directory (setEntry name new es)) := by
  have h := at?_change_append (f := setEntry name new) hp []
  rwa [List.append_nil, at?_nil, ← put_concat] at h

theorem at?_put_sibling {p : Place} {name other : String} {new : FileTree}
    (hp : t.at? p = some (directory es)) (hne : other ≠ name) :
    (t.put (p ++ [name]) new).at? (p ++ [other]) = t.at? (p ++ [other]) := by
  rw [at?_append, at?_append, at?_put_parent hp, hp, Option.bind_some, Option.bind_some,
    at?_directory_cons, at?_directory_cons, lookup_setEntry, if_neg hne]

theorem at?_erase_parent {p : Place} {name : String} (hp : t.at? p = some (directory es)) :
    (t.erase (p ++ [name])).at? p = some (directory (eraseEntry name es)) := by
  have h := at?_change_append (f := eraseEntry name) hp []
  rwa [List.append_nil, at?_nil, ← erase_concat] at h

theorem at?_erase_sibling {p : Place} {name other : String} (hp : t.at? p = some (directory es))
    (hne : other ≠ name) : (t.erase (p ++ [name])).at? (p ++ [other]) = t.at? (p ++ [other]) := by
  rw [at?_append, at?_append, at?_erase_parent hp, hp, Option.bind_some, Option.bind_some,
    at?_directory_cons, at?_directory_cons, lookup_eraseEntry, if_neg hne]

theorem erase_erase_comm (t : FileTree) (p : Place) (name other : String) :
    (t.erase (p ++ [name])).erase (p ++ [other]) = (t.erase (p ++ [other])).erase (p ++ [name]) := by
  rw [erase_concat, erase_concat, erase_concat, erase_concat, change_change, change_change]
  congr 1
  funext es
  exact eraseEntry_comm other name es

theorem kindAt?_erase {p q : Place} {name : String} (hp : t.at? p = some (directory es))
    (hq : ¬p ++ [name] <+: q) : (t.erase (p ++ [name])).kindAt? q = t.kindAt? q := by
  rw [erase_concat]
  refine kindAt?_change_entry hp (fun n hn => ?_) hq
  rw [lookup_eraseEntry, if_neg hn]

end Places

/-! Trees that a file system can have. -/

structure IsEntryName (name : String) : Prop where
  nonempty : name ≠ ""
  not_dot : name ≠ "."
  not_dots : name ≠ ".."
  slash : '/' ∉ name.toList
  nul : '\x00' ∉ name.toList

instance (name : String) : Decidable (IsEntryName name) :=
  decidable_of_iff (name ≠ "" ∧ name ≠ "." ∧ name ≠ ".." ∧ '/' ∉ name.toList ∧ '\x00' ∉ name.toList)
    ⟨fun ⟨a, b, c, d, e⟩ => ⟨a, b, c, d, e⟩, fun ⟨a, b, c, d, e⟩ => ⟨a, b, c, d, e⟩⟩

mutual

/-- The entries of every directory have names of their own. -/
def WellFormed : FileTree → Prop
  | file _ => True
  | directory entries => (entries.map Prod.fst).Nodup ∧ EachWellFormed entries

def EachWellFormed : List (String × FileTree) → Prop
  | [] => True
  | (name, t) :: rest => IsEntryName name ∧ t.WellFormed ∧ EachWellFormed rest

end

theorem eachWellFormed_iff {es : List (String × FileTree)} :
    EachWellFormed es ↔ ∀ e ∈ es, IsEntryName e.1 ∧ e.2.WellFormed := by
  induction es with
  | nil => simp [EachWellFormed]
  | cons e es ih => rw [EachWellFormed, List.forall_mem_cons, ih, and_assoc]

theorem wellFormed_directory {es : List (String × FileTree)} : (directory es).WellFormed ↔
    (es.map Prod.fst).Nodup ∧ ∀ e ∈ es, IsEntryName e.1 ∧ e.2.WellFormed := by
  rw [WellFormed, eachWellFormed_iff]

namespace WellFormed

variable {t s : FileTree} {p : Place} {es : List (String × FileTree)}
  {f g : List (String × FileTree) → List (String × FileTree)}

theorem of_at? (h : t.WellFormed) (hp : t.at? p = some s) : s.WellFormed := by
  induction p generalizing t with
  | nil => exact Option.some.inj ((at?_nil t).symm.trans hp) ▸ h
  | cons name p ih =>
    cases t with
    | file content => cases hp
    | directory es =>
      obtain ⟨u, hu, hp⟩ := Option.bind_eq_some_iff.mp hp
      exact ih ((wellFormed_directory.mp h).2 _ (mem_of_lookup hu)).2 hp

theorem isEntryName (h : t.WellFormed) (hp : t.at? p = some s) : ∀ n ∈ p, IsEntryName n := by
  induction p generalizing t with
  | nil => simp
  | cons name p ih =>
    cases t with
    | file content => cases hp
    | directory es =>
      obtain ⟨u, hu, hp⟩ := Option.bind_eq_some_iff.mp hp
      obtain ⟨hname, hu⟩ := (wellFormed_directory.mp h).2 _ (mem_of_lookup hu)
      exact List.forall_mem_cons.mpr ⟨hname, ih hu hp⟩

theorem change_congr (h : t.WellFormed)
    (hfg : ∀ es, t.at? p = some (directory es) → f es = g es) : t.change f p = t.change g p := by
  induction p generalizing t with
  | nil =>
    cases t with
    | file content => rfl
    | directory es => rw [change, change, hfg es rfl]
  | cons name p ih =>
    cases t with
    | file content => rfl
    | directory es =>
      obtain ⟨hnodup, hes⟩ := wellFormed_directory.mp h
      rw [change, change]
      congr 1
      refine List.map_congr_left fun e he => ?_
      by_cases hn : e.1 = name
      · simp only [hn, if_true]
        rw [ih (hes e he).2 fun entries hp => hfg entries ?_]
        rw [at?_directory_cons, ← hn, lookup_of_mem hnodup he]
        exact hp
      · simp only [hn, if_false]

theorem change_eq_self (h : t.WellFormed) (hf : ∀ es, t.at? p = some (directory es) → f es = es) :
    t.change f p = t := by
  have hid : t.change id p = t := by
    clear h hf
    induction p generalizing t with
    | nil => cases t <;> rfl
    | cons name p ih =>
      cases t with
      | file content => rfl
      | directory es => simp [change, ih]
  rw [h.change_congr hf (g := id), hid]

theorem change (h : t.WellFormed) (hf : ∀ es, t.at? p = some (directory es) →
    (directory es).WellFormed → (directory (f es)).WellFormed) : (t.change f p).WellFormed := by
  induction p generalizing t with
  | nil =>
    cases t with
    | file content => trivial
    | directory es => exact hf es rfl h
  | cons name p ih =>
    cases t with
    | file content => trivial
    | directory es =>
      obtain ⟨hnodup, hes⟩ := wellFormed_directory.mp h
      refine wellFormed_directory.mpr ⟨?_, fun e he => ?_⟩
      · rw [List.map_map]
        exact hnodup
      · obtain ⟨⟨k, s⟩, hk, rfl⟩ := List.mem_map.mp he
        obtain ⟨hname, hs⟩ := hes _ hk
        refine ⟨hname, ?_⟩
        by_cases hn : k = name
        · simp only [hn, if_true]
          refine ih hs fun entries hp => hf entries ?_
          rw [at?_directory_cons, ← hn, lookup_of_mem hnodup hk]
          exact hp
        · simpa only [hn, if_false] using hs

theorem put (h : t.WellFormed) {name : String} (hname : IsEntryName name) {new : FileTree}
    (hnew : new.WellFormed) : (t.put (p ++ [name]) new).WellFormed := by
  rw [put_concat]
  refine h.change fun es _ hes => ?_
  obtain ⟨hnodup, hall⟩ := wellFormed_directory.mp hes
  refine wellFormed_directory.mpr ⟨?_, ?_⟩
  · by_cases hmem : name ∈ es.map Prod.fst
    · rwa [map_fst_setEntry hmem]
    · rw [setEntry_of_not_mem hmem, List.map_append, List.nodup_append']
      exact ⟨hnodup, List.nodup_singleton _, List.disjoint_singleton.mpr hmem⟩
  · intro e he
    rcases mem_setEntry he with rfl | he
    · exact ⟨hname, hnew⟩
    · exact hall e he

theorem erase (h : t.WellFormed) {name : String} : (t.erase (p ++ [name])).WellFormed := by
  rw [erase_concat]
  refine h.change fun es _ hes => ?_
  obtain ⟨hnodup, hall⟩ := wellFormed_directory.mp hes
  have hsub : (eraseEntry name es).Sublist es := List.filter_sublist
  exact wellFormed_directory.mpr ⟨(hsub.map _).nodup hnodup, fun e he => hall e (hsub.mem he)⟩

theorem erase_eq_self (h : t.WellFormed) {name : String} (hp : t.at? p = some (directory es))
    (hname : name ∉ es.map Prod.fst) : t.erase (p ++ [name]) = t := by
  rw [erase_concat]
  refine h.change_eq_self fun es' hes' => ?_
  cases (Option.some.inj (hp.symm.trans hes'))
  exact eraseEntry_of_not_mem hname

theorem erase_put (h : t.WellFormed) {name : String} (hp : t.at? p = some (directory es))
    (hname : name ∉ es.map Prod.fst) (new : FileTree) :
    (t.put (p ++ [name]) new).erase (p ++ [name]) = t := by
  rw [put_concat, erase_concat, change_change]
  refine h.change_eq_self fun es' hes' => ?_
  cases (Option.some.inj (hp.symm.trans hes'))
  exact eraseEntry_setEntry hname

theorem put_put (h : t.WellFormed) {name : String} (hp : t.at? p = some (directory es))
    (hname : name ∉ es.map Prod.fst) (fs : List (String × FileTree)) (inner : String)
    (new : FileTree) : (t.put (p ++ [name]) (directory fs)).put (p ++ [name] ++ [inner]) new =
      t.put (p ++ [name]) (directory (setEntry inner new fs)) := by
  rw [put_concat, put_concat, put_concat, change_concat, change_change]
  refine h.change_congr fun es' hes' => ?_
  cases (Option.some.inj (hp.symm.trans hes'))
  rw [Function.comp_apply, setEntry_of_not_mem hname, setEntry_of_not_mem hname, List.map_append]
  congr 1
  · refine (List.map_congr_left fun e he => ?_).trans (List.map_id _)
    have hne : e.1 ≠ name := fun heq => hname (heq ▸ List.mem_map_of_mem he)
    simp [hne]
  · simp [FileTree.change]

end WellFormed

end SignalTree.FileTree
