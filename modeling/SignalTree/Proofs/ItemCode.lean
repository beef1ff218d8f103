import SignalTree.Proofs.Clash
import SignalTree.Proofs.CodeLines
import SignalTree.Proofs.Literals

/-!
What the scan of a source text finds in the code of items: the name of each item
in the block that the item stands in, the fields inside its struct, and nothing in
the code that goes with a struct.
-/
namespace SignalTree.Source

namespace TypePath

/-- A path of names that consist of the characters of names. -/
def IsNamed (p : TypePath) : Prop := (∀ m ∈ p.modules, IsName m) ∧ IsName p.name

theorem isName_upward : IsName upward := by simp [IsName, upward, isNameChar]

theorem IsNamed.not_mem_text {p : TypePath} (h : p.IsNamed) {c : Char} (hc : isNameChar c = false)
    (hcolon : c ≠ ':') : c ∉ p.text.toList := by
  rw [text, String.toList_intercalate]
  have hparts : ∀ part ∈ (p.modules ++ [p.name]).map String.toList, c ∉ part := by
    intro part hpart
    obtain ⟨n, hn, rfl⟩ := List.mem_map.mp hpart
    have hname : IsName n := by
      rcases List.mem_append.mp hn with hn | hn
      · exact h.1 n hn
      · rw [List.mem_singleton.mp hn]
        exact h.2
    exact hname.not_mem hc
  generalize (p.modules ++ [p.name]).map String.toList = parts at hparts
  induction parts with
  | nil => simp
  | cons part rest ih =>
    have hrest := ih fun x hx => hparts x (List.mem_cons_of_mem _ hx)
    have hpart := hparts part List.mem_cons_self
    cases rest with
    | nil => simpa using hpart
    | cons next rest => simpa [List.intercalate_cons_cons, hpart, hcolon] using hrest

theorem IsNamed.newline_not_mem {p : TypePath} (h : p.IsNamed) : '\n' ∉ p.text.toList :=
  h.not_mem_text (by decide) (by decide)

end TypePath

namespace StructItem

/-- A struct whose parts fit on lines, under names that consist of the characters of names. -/
structure IsWritable (s : StructItem) : Prop where
  docs : ∀ text ∈ s.docs, '\n' ∉ text.toList
  name : IsName s.name
  fields : ∀ f ∈ s.fields, IsName f.name ∧ f.type.IsNamed
  constants : ∀ c ∈ s.constants, c.OneLine
  parent : ∀ p ∈ s.parent, p.IsNamed

variable {s : StructItem}

theorem isName_nodeTrait : IsName nodeTrait := by simp [IsName, nodeTrait, isNameChar]

theorem isName_childTrait : IsName childTrait := by simp [IsName, childTrait, isNameChar]

theorem isNamed_traitPath (s : StructItem) {trait : String} (h : IsName trait) :
    (s.traitPath trait).IsNamed := by
  refine ⟨fun m hm => ?_, h⟩
  rw [List.eq_of_mem_replicate hm]
  exact TypePath.isName_upward

theorem silent_docLine {text : String} (h : '\n' ∉ text.toList) : (docLine text).Silent := by
  have hend : '\n' ∉ Text.trimEnd text.toList := by
    intro hmem
    have hdrop := (List.dropWhile_suffix _).subset (List.mem_reverse.mp hmem)
    exact h (List.mem_reverse.mp hdrop)
  unfold docLine
  dsimp only
  split
  · exact Code.silent_comment ['/'] (by simp) (by simp)
  · exact Code.silent_comment _ (by simpa using hend) (by simp; rfl)

theorem isPlain_constant {c : Constant} (h : c.OneLine) :
    Code.IsPlain ("pub const " ++ c.name ++ ": " ++ c.type ++ " = " ++ c.literal ++ ";") := by
  obtain ⟨hname, htype, hliteral⟩ := h
  refine Code.isPlain_of 'p' ';' ?_ ?_ ?_ (by decide) (by decide)
  · simp [hname, htype, hliteral]
  · simp
  · simp [List.getLast?_append, List.getLast?_cons]

theorem silent_constant {c : Constant} (h : c.OneLine) : c.code.Silent := by
  refine Code.silent_line (isPlain_constant h) ?_
  simp [itemName?, structWord_eq, moduleWord_eq, Text.stripPrefix?]

theorem silent_constantImpl (h : s.IsWritable) : s.constantImpl.Silent := by
  have hname := h.name.not_mem (c := '\n') (by decide)
  refine Code.silent_braces 'i' (by simpa using hname) (by simp) (by decide) (by decide) ?_
  intro c hc
  obtain ⟨constant, hconstant, rfl⟩ := List.mem_map.mp hc
  exact silent_constant (h.constants _ hconstant)

theorem isPlain_fieldDefault {name : String} (hname : IsName name) :
    Code.IsPlain (name ++ ": Default::default(),") := by
  have hnewline := hname.not_mem (c := '\n') (by decide)
  refine ⟨?_, ?_, ?_⟩
  · simpa using hnewline
  · simpa using Code.isStarter_of_isName hname " Default::default(),".toList
  · simpa [List.getLast?_append, List.getLast?_cons] using (by decide : Code.isEnder ',' = true)

theorem silent_fieldDefault {name : String} (hname : IsName name) :
    (Code.line (name ++ ": Default::default(),")).Silent := by
  have hspace := hname.not_mem (c := ' ') (by decide)
  refine Code.silent_line (isPlain_fieldDefault hname) ?_
  simpa using itemName?_of_colon hspace _

theorem isPlain_valueDefault (s : StructItem) :
    Code.IsPlain (valueField ++ ": " ++ s.value.defaultLiteral ++ ",") := by
  refine Code.isPlain_of 'v' ',' ?_ ?_ ?_ (by decide) (by decide)
  · simpa [valueField] using s.value.newline_not_mem_defaultLiteral
  · simp [valueField]
  · simp [List.getLast?_append, List.getLast?_cons]

theorem silent_defaultImpl (h : s.IsWritable) : s.defaultImpl.Silent := by
  have hname := h.name.not_mem (c := '\n') (by decide)
  refine Code.silent_braces 'i' (by simpa using hname) (by simp) (by decide) (by decide) ?_
  simp only [List.mem_singleton, forall_eq]
  refine Code.silent_braces 'f' (by simp) (by simp) (by decide) (by decide) ?_
  simp only [List.mem_singleton, forall_eq]
  refine Code.silent_braces 'S' (by simp) (by simp) (by decide) (by decide) ?_
  intro c hc
  rcases List.mem_cons.mp hc with rfl | hc
  · refine Code.silent_line s.isPlain_valueDefault (Code.itemName?_of_head? 'v' ?_ (by decide))
    simp [valueField]
  · obtain ⟨f, hf, rfl⟩ := List.mem_map.mp hc
    exact silent_fieldDefault (h.fields f hf).1

theorem isPlain_cast {name : String} {trait : TypePath} (hname : IsName name)
    (htrait : trait.IsNamed) :
    Code.IsPlain ("&self." ++ name ++ " as &dyn " ++ trait.text ++ ",") := by
  have hnewline := hname.not_mem (c := '\n') (by decide)
  refine Code.isPlain_of '&' ',' ?_ ?_ ?_ (by decide) (by decide)
  · simpa using ⟨hnewline, htrait.newline_not_mem⟩
  · simp
  · simp [List.getLast?_append, List.getLast?_cons]

theorem isHead_list : Code.IsHead "vec![" where
  oneLine := by simp
  starts := by simpa using (by decide : Code.isStarter 'v' = true)
  opens := by simp [opens]

theorem silent_childList (h : s.IsWritable) : s.childList.Silent := by
  unfold childList
  split
  · refine Code.silent_line_of 'V' ')' ?_ ?_ ?_ (by decide) (by decide) (by decide)
    · simp
    · simp
    · simp
  · refine Code.silent_block isHead_list (Code.itemName?_of_head? 'v' ?_ ?_) (.inr rfl) ?_
    · simp
    · decide
    · intro c hc
      obtain ⟨f, hf, rfl⟩ := List.mem_map.mp hc
      have hplain := isPlain_cast (h.fields f hf).1 (s.isNamed_traitPath isName_nodeTrait)
      refine Code.silent_line hplain (Code.itemName?_of_head? '&' ?_ ?_)
      · simp
      · decide

theorem silent_nodeImpl (h : s.IsWritable) : s.nodeImpl.Silent := by
  have hname := h.name.not_mem (c := '\n') (by decide)
  have htrait := (s.isNamed_traitPath isName_nodeTrait).newline_not_mem
  refine Code.silent_braces 'i' (by simpa using ⟨htrait, hname⟩) (by simp) (by decide)
    (by decide) ?_
  simp only [List.mem_cons, List.not_mem_nil, or_false, forall_eq_or_imp, forall_eq]
  refine ⟨?_, Code.silent_blank, ?_⟩
  · refine Code.silent_braces 'f' (by simp) (by simp) (by decide) (by decide) ?_
    simp only [List.mem_singleton, forall_eq]
    refine Code.silent_line_of 'S' 'H' ?_ ?_ ?_ (by decide) (by decide) (by decide)
    · simp
    · simp
    · simp
  · refine Code.silent_braces 'f' (by simpa using htrait) (by simp) (by decide) (by decide) ?_
    simpa using silent_childList h

theorem isPlain_parent {parent : TypePath} (h : parent.IsNamed) :
    Code.IsPlain ("type Parent = " ++ parent.text ++ ";") := by
  refine Code.isPlain_of 't' ';' ?_ ?_ ?_ (by decide) (by decide)
  · simpa using h.newline_not_mem
  · simp
  · simp [List.getLast?_append, List.getLast?_cons]

theorem silent_parentImpl (h : s.IsWritable) {parent : TypePath} (hp : s.parent = some parent) :
    (s.parentImpl parent).Silent := by
  have hname := h.name.not_mem (c := '\n') (by decide)
  have htrait := (s.isNamed_traitPath isName_childTrait).newline_not_mem
  refine Code.silent_braces 'i' (by simpa using ⟨htrait, hname⟩) (by simp) (by decide)
    (by decide) ?_
  simp only [List.mem_singleton, forall_eq]
  refine Code.silent_line (isPlain_parent (h.parent parent hp)) (Code.itemName?_of_head? 't' ?_ ?_)
  · simp
  · decide

def fieldLine (name type : String) : Code := .line ("pub " ++ name ++ ": " ++ type ++ ",")

theorem isPlain_field {name type : String} (hname : IsName name) (htype : '\n' ∉ type.toList) :
    Code.IsPlain ("pub " ++ name ++ ": " ++ type ++ ",") := by
  have hnewline := hname.not_mem (c := '\n') (by decide)
  refine Code.isPlain_of 'p' ',' ?_ ?_ ?_ (by decide) (by decide)
  · simpa using ⟨hnewline, htype⟩
  · simp
  · simp [List.getLast?_append, List.getLast?_cons]

theorem declared_fieldLine {name type : String} (hname : IsName name)
    (htype : '\n' ∉ type.toList) : (fieldLine name type).declared true = [name.toList] := by
  rw [fieldLine, (isPlain_field hname htype).declared]
  simpa using declaredName?_field hname (' ' :: (type.toList ++ [',']))

theorem isHead_declaration {name : String} (h : IsName name) :
    Code.IsHead ("pub struct " ++ name ++ openBrace) := by
  refine Code.isHead_braces 'p' ?_ ?_ (by decide)
  · simpa using h.not_mem (by decide)
  · simp

theorem itemName?_declaration {name : String} (h : IsName name) :
    itemName? ("pub struct " ++ name ++ openBrace).toList = some name.toList := by
  have htake := takeWhile_name h (.inl rfl) ['{']
  simp [itemName?, structWord_eq, moduleWord_eq, Text.stripPrefix?, openBrace, htake]

theorem isStructLine_declaration (name : String) :
    isStructLine ("pub struct " ++ name ++ openBrace).toList = true := by
  simp [isStructLine, structWord_eq, List.isPrefixOf]

theorem declares_struct {name : String} (fields : List (String × String)) (hname : IsName name)
    (hfields : ∀ f ∈ fields, IsName f.1 ∧ '\n' ∉ f.2.toList) :
    Code.Declares [braces ("pub struct " ++ name) (fields.map fun f => fieldLine f.1 f.2)] name
      (fields.map Prod.fst).Nodup := by
  have hshaped : Code.ShapedAll (fields.map fun f => fieldLine f.1 f.2) := by
    rw [Code.shapedAll_iff]
    intro c hc
    obtain ⟨f, hf, rfl⟩ := List.mem_map.mp hc
    exact (isPlain_field (hfields f hf).1 (hfields f hf).2).shaped
  have honce : Code.OnceInsideAll (fields.map fun f => fieldLine f.1 f.2) := by
    rw [Code.onceInsideAll_iff]
    intro c hc
    obtain ⟨f, -, rfl⟩ := List.mem_map.mp hc
    trivial
  have hdeclared : (fields.map fun f => fieldLine f.1 f.2).flatMap (Code.declared true) =
      (fields.map Prod.fst).map String.toList := by
    rw [List.flatMap_map, List.map_map, List.map_eq_flatMap]
    exact List.flatMap_congr fun f hf => declared_fieldLine (hfields f hf).1 (hfields f hf).2
  refine (Code.declares_block (isHead_declaration hname) (itemName?_declaration hname)
    hshaped).congr ?_
  rw [isStructLine_declaration, hdeclared, nodup_map_toList, and_iff_left honce]

theorem declares_declaration (h : s.IsWritable) :
    Code.Declares [s.declaration] s.name (valueField :: s.fields.map Field.name).Nodup := by
  have hall := declares_struct ((valueField, s.value.rustType) ::
    s.fields.map fun f => (f.name, f.type.text)) h.name (by
      intro f hf
      rcases List.mem_cons.mp hf with rfl | hf
      · exact ⟨isName_valueField, s.value.newline_not_mem_rustType⟩
      · obtain ⟨g, hg, rfl⟩ := List.mem_map.mp hf
        exact ⟨(h.fields g hg).1, (h.fields g hg).2.newline_not_mem⟩)
  rwa [List.map_cons, List.map_cons, List.map_map, List.map_map] at hall

theorem declares_code (h : s.IsWritable) :
    Code.Declares s.code s.name (valueField :: s.fields.map Field.name).Nodup := by
  have hderive : (Code.line "#[derive(Debug, Clone, PartialEq)]").Silent := by
    refine Code.silent_line_of '#' ']' ?_ ?_ ?_ (by decide) (by decide) (by decide)
    · simp
    · simp
    · simp
  have hbefore : ∀ c ∈ s.docs.map docLine ++ [.line "#[derive(Debug, Clone, PartialEq)]"],
      c.Silent := by
    intro c hc
    rcases List.mem_append.mp hc with hc | hc
    · obtain ⟨text, htext, rfl⟩ := List.mem_map.mp hc
      exact silent_docLine (h.docs text htext)
    · rwa [List.mem_singleton.mp hc]
  have hafter : ∀ c ∈ [Code.blank, s.constantImpl, .blank, s.defaultImpl, .blank, s.nodeImpl],
      c.Silent := by
    intro c hc
    simp only [List.mem_cons, List.not_mem_nil, or_false] at hc
    rcases hc with rfl | rfl | rfl | rfl | rfl | rfl
    · exact Code.silent_blank
    · exact silent_constantImpl h
    · exact Code.silent_blank
    · exact silent_defaultImpl h
    · exact Code.silent_blank
    · exact silent_nodeImpl h
  have hall (rest : List Code) (hrest : ∀ c ∈ rest, c.Silent) :
      Code.Declares (s.docs.map docLine ++ [.line "#[derive(Debug, Clone, PartialEq)]",
        s.declaration, .blank, s.constantImpl, .blank, s.defaultImpl, .blank, s.nodeImpl] ++ rest)
        s.name (valueField :: s.fields.map Field.name).Nodup := by
    have hmiddle := ((declares_declaration h).append hbefore hafter).append
      (List.forall_mem_nil _) hrest
    simpa only [List.append_assoc, List.cons_append, List.nil_append] using hmiddle
  unfold code
  split
  · next parent hp => exact hall _ (by simpa using ⟨Code.silent_blank, silent_parentImpl h hp⟩)
  · exact hall _ (by simp)

end StructItem

theorem itemName?_module {name : String} (h : IsName name) :
    itemName? ("pub mod " ++ name ++ openBrace).toList = some name.toList := by
  have htake := takeWhile_name h (.inl rfl) ['{']
  simp [itemName?, structWord_eq, moduleWord_eq, Text.stripPrefix?, openBrace, htake]

theorem isStructLine_module (name : String) :
    isStructLine ("pub mod " ++ name ++ openBrace).toList = false := by
  simp [isStructLine, structWord_eq, List.isPrefixOf]

theorem isHead_module {name : String} (h : IsName name) :
    Code.IsHead ("pub mod " ++ name ++ openBrace) := by
  refine Code.isHead_braces 'p' ?_ ?_ (by decide)
  · simpa using h.not_mem (by decide)
  · simp

namespace Item

mutual

def IsWritable : Item → Prop
  | struct item => item.IsWritable
  | module name items => IsName name ∧ EachWritable items

def EachWritable : List Item → Prop
  | [] => True
  | item :: rest => item.IsWritable ∧ EachWritable rest

end

@[simp] theorem eachWritable_append {xs ys : List Item} :
    EachWritable (xs ++ ys) ↔ EachWritable xs ∧ EachWritable ys := by
  induction xs with
  | nil => simp [EachWritable]
  | cons x xs ih => simp [EachWritable, ih, and_assoc]

mutual

theorem declares_code (i : Item) (hi : i.IsWritable) : Code.Declares i.code i.name i.Distinct := by
  match i with
  | struct item => exact item.declares_code hi
  | module name items =>
    obtain ⟨hname, hitems⟩ := hi
    obtain ⟨hshaped, hdeclared, honce⟩ := declares_codesOf items hitems
    refine (Code.declares_block (isHead_module hname) (itemName?_module hname) hshaped).congr ?_
    rw [isStructLine_module, hdeclared, nodup_map_toList, honce]
    rfl

theorem declares_codesOf (items : List Item) (hitems : EachWritable items) :
    Code.ShapedAll (Code.spaced (codesOf items)) ∧
      (Code.spaced (codesOf items)).flatMap (Code.declared false) =
        (items.map name).map String.toList ∧
      (Code.OnceInsideAll (Code.spaced (codesOf items)) ↔ EachDistinct items) := by
  rw [Code.shapedAll_iff, Code.onceInsideAll_iff, Code.flatMap_spaced rfl,
    Code.forall_mem_spaced trivial, Code.forall_mem_spaced trivial]
  match items with
  | [] => simp [codesOf, EachDistinct]
  | i :: rest =>
    obtain ⟨hshaped, hdeclared, honce⟩ := declares_code i hitems.1
    obtain ⟨hshapedRest, hdeclaredRest, honceRest⟩ := declares_codesOf rest hitems.2
    rw [Code.shapedAll_iff, Code.forall_mem_spaced trivial] at hshapedRest
    rw [Code.onceInsideAll_iff, Code.forall_mem_spaced trivial] at honceRest
    rw [Code.flatMap_spaced rfl] at hdeclaredRest
    rw [Code.shapedAll_iff] at hshaped
    rw [Code.onceInsideAll_iff] at honce
    simp only [codesOf, List.forall_mem_cons, List.flatMap_cons, hdeclared, hdeclaredRest, honce,
      honceRest, EachDistinct, List.map_cons, List.cons_append, List.nil_append]
    exact ⟨⟨hshaped, hshapedRest⟩, trivial, trivial⟩

end

end Item

end SignalTree.Source
