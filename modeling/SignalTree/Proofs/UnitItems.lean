import SignalTree.Proofs.ItemCode

/-!
The items of a unit are fit to be written: what the generator puts on a line stays on
it, and all names consist of the characters of names.
-/
namespace SignalTree

/-- All types that a unit mentions have the names that types are given. -/
structure TypeUnit.IsNamed (u : TypeUnit) : Prop where
  types : ∀ d ∈ u.types, IsTypeName d.name
  children : ∀ d ∈ u.types, ∀ c ∈ d.children, IsTypeName c.name
  parent : ∀ r ∈ u.parent, IsTypeName r.unit ∧ ∀ n ∈ r.nested, IsTypeName n

namespace Source

theorem isNamed_childType {isUnit : Bool} {depth : Nat} {owner : String} {c : ChildRef}
    (hc : IsTypeName c.name) : (childType isUnit depth owner c).IsNamed := by
  unfold childType
  split
  · refine ⟨?_, hc.isName⟩
    intro m hm
    rcases List.mem_append.mp hm with hm | hm
    · rw [List.eq_of_mem_replicate hm]
      exact TypePath.isName_upward
    · rw [List.mem_singleton.mp hm]
      exact isName_moduleName c.name
  · refine ⟨?_, hc.isName⟩
    cases isUnit with
    | true => simp
    | false => simpa [nestedModule] using isName_moduleName owner

theorem isNamed_parentPath {r : ParentRef} (hunit : IsTypeName r.unit)
    (hnested : ∀ n ∈ r.nested, IsTypeName n) : (parentPath r).IsNamed := by
  constructor
  · intro m hm
    rcases List.mem_cons.mp hm with rfl | hm
    · exact TypePath.isName_upward
    rcases List.mem_cons.mp hm with rfl | hm
    · exact isName_moduleName r.unit
    · obtain ⟨n, -, rfl⟩ := List.mem_map.mp hm
      exact isName_moduleName n
  · change IsName r.typeName
    rw [ParentRef.typeName]
    cases hlast : r.nested.getLast? with
    | none => exact hunit.isName
    | some n => exact (hnested n (List.mem_of_getLast? hlast)).isName

theorem newline_not_mem_docs (d : TypeDecl) :
    ∀ text ∈ nodeDocs d.node.properties ++ if d.implicit then [implicitNote] else [],
      '\n' ∉ text.toList := by
  intro text htext
  rcases List.mem_append.mp htext with htext | htext
  · exact newline_not_mem_nodeDocs _ htext
  · cases hi : d.implicit with
    | false => simp [hi] at htext
    | true =>
      simp only [hi, if_true, List.mem_singleton] at htext
      subst htext
      decide +kernel

theorem isWritable_structItem {isUnit : Bool} {depth : Nat} {parent : Option TypePath}
    {d : TypeDecl} (hname : IsTypeName d.name) (hchildren : ∀ c ∈ d.children, IsTypeName c.name)
    (hparent : ∀ p ∈ parent, p.IsNamed) :
    (structItem isUnit depth parent d).IsWritable where
  docs := newline_not_mem_docs d
  name := hname.isName
  fields := by
    intro f hf
    obtain ⟨c, hc, rfl⟩ := List.mem_map.mp hf
    dsimp only
    exact ⟨isName_fieldName c.path, isNamed_childType (hchildren c hc)⟩
  constants := fun _ hc => oneLine_constants d.node hc
  parent := hparent

mutual

theorem eachWritable_nestedItems (depth : Nat) {parent : TypePath} (d : TypeDecl)
    (hnames : ∀ e ∈ d.types, IsTypeName e.name)
    (hchildren : ∀ e ∈ d.types, ∀ c ∈ e.children, IsTypeName c.name)
    (hparent : parent.IsNamed) : Item.EachWritable (nestedItems depth parent d) := by
  match d with
  | ⟨name, node, children, nested, implicit⟩ =>
    rw [TypeDecl.types_eq, List.forall_mem_cons] at hnames hchildren
    rw [nestedItems]
    refine ⟨isWritable_structItem hnames.1 hchildren.1 (by simpa using hparent), ?_⟩
    split
    · trivial
    · refine ⟨⟨isName_moduleName name, ?_⟩, trivial⟩
      refine eachWritable_nestedItemsOf (depth + 1) nested hnames.2 hchildren.2 ?_
      exact ⟨by simpa using TypePath.isName_upward, hnames.1.isName⟩

theorem eachWritable_nestedItemsOf (depth : Nat) {parent : TypePath} (ds : List TypeDecl)
    (hnames : ∀ e ∈ TypeDecl.typesOf ds, IsTypeName e.name)
    (hchildren : ∀ e ∈ TypeDecl.typesOf ds, ∀ c ∈ e.children, IsTypeName c.name)
    (hparent : parent.IsNamed) :
    Item.EachWritable (nestedItemsOf depth parent ds) := by
  match ds with
  | [] => trivial
  | d :: rest =>
    rw [TypeDecl.typesOf, List.forall_mem_append] at hnames hchildren
    rw [nestedItemsOf]
    have hd := eachWritable_nestedItems depth d hnames.1 hchildren.1 hparent
    have hrest := eachWritable_nestedItemsOf depth rest hnames.2 hchildren.2 hparent
    exact Item.eachWritable_append.mpr ⟨hd, hrest⟩

end

theorem eachWritable_unitItems {u : TypeUnit} (hu : u.IsNamed) :
    Item.EachWritable (unitItems u) := by
  obtain ⟨hnames, hchildren, hparent⟩ := hu
  rw [TypeUnit.types, TypeDecl.types_eq, List.forall_mem_cons] at hnames hchildren
  refine ⟨isWritable_structItem hnames.1 hchildren.1 ?_, ?_⟩
  · intro p hp
    obtain ⟨r, hr, rfl⟩ := Option.map_eq_some_iff.mp hp
    exact isNamed_parentPath (hparent r hr).1 (hparent r hr).2
  · refine eachWritable_nestedItemsOf 1 u.decl.nested hnames.2 hchildren.2 ?_
    exact ⟨by simp, hnames.1.isName⟩

end Source

end SignalTree
