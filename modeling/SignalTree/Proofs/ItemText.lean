import SignalTree.Proofs.CodeText
import SignalTree.Proofs.UnitItems

/-!
What stands on the lines of items: the documentation of their structs, and code. Whatever else
a node says stands in the constants, as literals.
-/
namespace SignalTree.Source

theorem isCode_textConstant {name : String} (hname : IsName name) (value : String) :
    (textConstant name value).IsCode where
  name := hname
  type := .fixed (by simp [fixedTexts, textConstant])
  literal := .literal value

theorem isCode_boundConstant? {type : ValueType} {bound : BoundKind} {raw : String} {c : Constant}
    (h : boundConstant? type bound raw = some c) : c.IsCode := by
  simp only [boundConstant?, ValueType.boundType?, ValueType.boundLiteral?, Option.bind_eq_bind,
    Option.bind_eq_some_iff, Option.map_eq_some_iff, Option.pure_def, Option.some.injEq] at h
  obtain ⟨_, ⟨s, -, rfl⟩, literal, ⟨s', -, hliteral⟩, rfl⟩ := h
  refine ⟨?_, .constantType s, .literal? hliteral⟩
  cases bound <;> simp [BoundKind.name, IsName, isNameChar]

theorem isCode_constants (n : Node) {c : Constant} (hc : c ∈ constants n) : c.IsCode := by
  have hoptional {name : String} {value : Option String} (hname : IsName name)
      (h : c ∈ (value.map (textConstant name)).toList) : c.IsCode := by
    rw [Option.mem_toList, Option.map_eq_some_iff] at h
    obtain ⟨text, -, rfl⟩ := h
    exact isCode_textConstant hname text
  simp only [constants, List.mem_append, List.mem_cons, List.not_mem_nil, or_false] at hc
  rcases hc with ((((((rfl | rfl | rfl) | h) | h) | h) | h) | h)
  · exact isCode_textConstant (by simp [IsName, isNameChar]) _
  · exact isCode_textConstant (by simp [IsName, isNameChar]) _
  · exact isCode_textConstant (by simp [IsName, isNameChar]) _
  · exact hoptional (by simp [IsName, isNameChar]) h
  · exact hoptional (by simp [IsName, isNameChar]) h
  · exact hoptional (by simp [IsName, isNameChar]) h
  · exact hoptional (by simp [IsName, isNameChar]) h
  · obtain ⟨⟨bound, raw⟩, -, hbound⟩ := List.mem_filterMap.mp h
    exact isCode_boundConstant? hbound

/-! The structs of items, at all depths. -/

namespace Item

mutual

def structs : Item → List StructItem
  | struct item => [item]
  | module _ items => structsOf items

def structsOf : List Item → List StructItem
  | [] => []
  | item :: rest => item.structs ++ structsOf rest

end

theorem structsOf_append (xs ys : List Item) :
    structsOf (xs ++ ys) = structsOf xs ++ structsOf ys := by
  induction xs with
  | nil => rfl
  | cons x xs ih => simp [structsOf, ih]

/-- A line of documentation of one of the structs. -/
def IsDocOf (ss : List StructItem) (t : String) : Prop :=
  ∃ s ∈ ss, ∃ text ∈ s.docs, t = docText text

mutual

theorem isDoc_or_isCodeText (i : Item) (hi : i.IsWritable)
    (hconstants : ∀ s ∈ i.structs, ∀ c ∈ s.constants, c.IsCode) :
    ∀ t ∈ Code.texts i.code, IsDocOf i.structs t ∨ IsCodeText t := by
  cases i with
  | struct s =>
    obtain ⟨below, htexts, hbelow⟩ :=
      StructItem.texts_code hi (hconstants s (List.mem_singleton_self s))
    intro t ht
    rw [code, htexts] at ht
    rcases List.mem_append.mp ht with ht | ht
    · obtain ⟨text, htext, rfl⟩ := List.mem_map.mp ht
      exact .inl ⟨s, List.mem_singleton_self s, text, htext, rfl⟩
    · exact .inr (hbelow t ht)
  | module name items =>
    have hinner := isDoc_or_isCodeText_of items hi.2 hconstants
    have hhead : IsCodeText ("pub mod " ++ name) :=
      .fixed_append (by simp [fixedTexts]) (.name hi.1)
    intro t ht
    rw [code, braces, Code.texts_block_cons, Code.texts_spaced, Code.texts_nil] at ht
    rcases List.mem_append.mp ht with ht | ht
    · rcases List.mem_cons.mp ht with rfl | ht
      · exact .inr hhead.openBrace
      · exact hinner t ht
    · rw [List.mem_singleton.mp ht]
      exact .inr (.fixed (by simp [fixedTexts, closeBrace]))

theorem isDoc_or_isCodeText_of (items : List Item) (hi : EachWritable items)
    (hconstants : ∀ s ∈ structsOf items, ∀ c ∈ s.constants, c.IsCode) :
    ∀ t ∈ (codesOf items).flatMap Code.texts, IsDocOf (structsOf items) t ∨ IsCodeText t := by
  cases items with
  | nil => simp [codesOf]
  | cons item rest =>
    rw [structsOf, List.forall_mem_append] at hconstants
    have hitem := isDoc_or_isCodeText item hi.1 hconstants.1
    have hrest := isDoc_or_isCodeText_of rest hi.2 hconstants.2
    intro t ht
    rw [codesOf, List.flatMap_cons] at ht
    rcases List.mem_append.mp ht with ht | ht
    · exact (hitem t ht).imp_left fun ⟨s, hs, h⟩ => ⟨s, List.mem_append_left _ hs, h⟩
    · exact (hrest t ht).imp_left fun ⟨s, hs, h⟩ => ⟨s, List.mem_append_right _ hs, h⟩

end

mutual

theorem docText_mem_texts (i : Item) {s : StructItem} (hs : s ∈ i.structs) {text : String}
    (htext : text ∈ s.docs) : docText text ∈ Code.texts i.code := by
  cases i with
  | struct item =>
    obtain rfl := List.mem_singleton.mp hs
    rw [code, StructItem.code, Code.texts_append, Code.texts_append, texts_map_docLine]
    simp [List.mem_map_of_mem htext]
  | module name items =>
    have hinner := docText_mem_texts_of items hs htext
    rw [code, braces, Code.texts_block_cons, Code.texts_spaced]
    exact List.mem_append_left _ (List.mem_cons_of_mem _ hinner)

theorem docText_mem_texts_of (items : List Item) {s : StructItem} (hs : s ∈ structsOf items)
    {text : String} (htext : text ∈ s.docs) :
    docText text ∈ (codesOf items).flatMap Code.texts := by
  cases items with
  | nil => simp [structsOf] at hs
  | cons item rest =>
    rw [codesOf, List.flatMap_cons]
    rcases List.mem_append.mp hs with hs | hs
    · exact List.mem_append_left _ (docText_mem_texts item hs htext)
    · exact List.mem_append_right _ (docText_mem_texts_of rest hs htext)

end

end Item

/-! The structs of a unit are those of its types. -/

def typeDocs (d : TypeDecl) : List String :=
  nodeDocs d.node.properties ++ if d.implicit then [implicitNote] else []

mutual

theorem map_structs_nestedItems (depth : Nat) (parent : TypePath) (d : TypeDecl) :
    (Item.structsOf (nestedItems depth parent d)).map (fun s => (s.docs, s.constants)) =
      d.types.map fun e => (typeDocs e, constants e.node) := by
  match d with
  | ⟨name, node, children, nested, implicit⟩ =>
    have hnested := map_structs_nestedItemsOf (depth + 1) ⟨[TypePath.upward], name⟩ nested
    rw [nestedItems, TypeDecl.types_eq, Item.structsOf, Item.structs, List.map_append]
    split
    · next hempty =>
      rw [List.isEmpty_iff.mp hempty]
      rfl
    · rw [Item.structsOf, Item.structs, Item.structsOf, List.append_nil, hnested]
      rfl

theorem map_structs_nestedItemsOf (depth : Nat) (parent : TypePath) (ds : List TypeDecl) :
    (Item.structsOf (nestedItemsOf depth parent ds)).map (fun s => (s.docs, s.constants)) =
      (TypeDecl.typesOf ds).map fun e => (typeDocs e, constants e.node) := by
  match ds with
  | [] => rfl
  | d :: rest =>
    rw [nestedItemsOf, TypeDecl.typesOf, Item.structsOf_append, List.map_append, List.map_append,
      map_structs_nestedItems depth parent d, map_structs_nestedItemsOf depth parent rest]

end

theorem map_structs_unitItems (u : TypeUnit) :
    (Item.structsOf (unitItems u)).map (fun s => (s.docs, s.constants)) =
      u.types.map fun e => (typeDocs e, constants e.node) := by
  rw [unitItems, Item.structsOf, List.map_append, map_structs_nestedItemsOf, TypeUnit.types,
    TypeDecl.types_eq]
  rfl

end SignalTree.Source
