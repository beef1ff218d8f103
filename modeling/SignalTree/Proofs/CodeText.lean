import SignalTree.Proofs.ItemCode
import SignalTree.Source.Index

/-!
What the lines of generated code are put together from: texts of the generator's own, names,
spellings of types and literals. Nothing else that a definition says gets into a line of code.
-/
namespace SignalTree.Source

/-- All that the generator writes on its own account. -/
def fixedTexts : List String := [
  generatedNote, "/// " ++ implicitNote, "//! VSS node model `", "`.",
  "/// Common view over every generated VSS node.", "/// Dotted VSS path of the node.",
  "/// Child nodes, in definition order.", "/// Links a node type to the type of its parent node.",
  "#[derive(Debug, Clone, PartialEq)]", "pub struct ", "pub mod ", "pub use ", "pub trait ",
  "pub const ", "pub ", "impl ", "impl Default for ", " for ", "fn default() -> Self",
  "fn vss_path(&self) -> &'static str", "fn vss_path(&self) -> &'static str;",
  "fn children(&self) -> Vec<&dyn ", ">", ">;", "type Parent = ", "type Parent: ", "Self",
  "Self::VSS_PATH", "Vec::new()", "String::new()", "vec![", "]", "&self.", " as &dyn ",
  ": Default::default(),", " \x7b", "\x7d", ": ", " = ", "::", ",", ";", "&'static str", "Vec<",
  "()"]

/-- Text that is written as code. -/
inductive IsCodeText : String → Prop
  | fixed {text : String} (h : text ∈ fixedTexts) : IsCodeText text
  | name {text : String} (h : IsName text) : IsCodeText text
  | type (s : Scalar) : IsCodeText s.rustType
  | literal (text : String) : IsCodeText (Text.Literal.quote text)
  | number {text : String} (h : ∀ c ∈ text.toList, isNumberChar c = true) : IsCodeText text
  | append {a b : String} (ha : IsCodeText a) (hb : IsCodeText b) : IsCodeText (a ++ b)

namespace IsCodeText

theorem fixed_append {a b : String} (ha : a ∈ fixedTexts) (hb : IsCodeText b) :
    IsCodeText (a ++ b) := .append (.fixed ha) hb

theorem append_fixed {a b : String} (ha : IsCodeText a) (hb : b ∈ fixedTexts) :
    IsCodeText (a ++ b) := .append ha (.fixed hb)

theorem isName_rustType (s : Scalar) : IsName s.rustType := by
  rcases s with _ | _ | ⟨_ | _, _ | _ | _ | _⟩ | _ | _ <;> decide +kernel

/-- Code has no end of a line in it, not even half of one. -/
theorem not_mem {text : String} (h : IsCodeText text) {c : Char} (hc : c = '\n' ∨ c = '\r') :
    c ∉ text.toList := by
  have hname : isNameChar c = false := by rcases hc with rfl | rfl <;> decide
  induction h with
  | fixed h =>
    have hall : ∀ text ∈ fixedTexts, '\n' ∉ text.toList ∧ '\r' ∉ text.toList := by decide +kernel
    rcases hc with rfl | rfl
    · exact (hall _ h).1
    · exact (hall _ h).2
  | name h => exact h.not_mem hname
  | type s => exact (isName_rustType s).not_mem hname
  | literal text => simpa [Text.Literal.quote] using not_mem_encode hc text.toList
  | number h =>
    intro hmem
    have := h c hmem
    rcases hc with rfl | rfl <;> exact absurd this (by decide)
  | append _ _ iha ihb => simp [iha, ihb]

theorem path {p : TypePath} (h : p.IsNamed) : IsCodeText p.text := by
  have hparts : ∀ part ∈ p.modules ++ [p.name], IsCodeText part := by
    intro part hpart
    rcases List.mem_append.mp hpart with hm | hm
    · exact .name (h.1 part hm)
    · rw [List.mem_singleton.mp hm]
      exact .name h.2
  rw [TypePath.text]
  generalize p.modules ++ [p.name] = parts at hparts
  induction parts with
  | nil => exact .name (by simp [IsName])
  | cons part rest ih =>
    have hrest := ih fun x hx => hparts x (List.mem_cons_of_mem _ hx)
    have hpart := hparts part List.mem_cons_self
    cases rest with
    | nil => simpa using hpart
    | cons next rest =>
      rw [String.intercalate_cons_cons]
      exact (hpart.append (.fixed (by simp [fixedTexts]))).append hrest

theorem constantType (s : Scalar) : IsCodeText s.constantType := by
  cases s with
  | string => exact .fixed (by simp [fixedTexts, Scalar.constantType])
  | boolean => exact .type .boolean
  | integer signed w => exact .type (.integer signed w)
  | float => exact .type .float
  | double => exact .type .double

theorem rustType (t : ValueType) : IsCodeText t.rustType := by
  cases t with
  | scalar s => exact .type s
  | array s =>
    exact .append_fixed (.fixed_append (by simp [fixedTexts]) (.type s)) (by simp [fixedTexts])
  | untyped => exact .fixed (by simp [fixedTexts, ValueType.rustType])

theorem defaultLiteral (t : ValueType) : IsCodeText t.defaultLiteral := by
  have hfalse : IsCodeText "false" := .name (by simp [IsName, isNameChar])
  have hinteger : IsCodeText "0" := .number (by simp [isNumberChar])
  have hfloat : IsCodeText "0.0" := .number (by simp [isNumberChar])
  cases t with
  | scalar s =>
    cases s with
    | string => exact .fixed (by simp [fixedTexts, ValueType.defaultLiteral, Scalar.defaultLiteral])
    | boolean => exact hfalse
    | integer => exact hinteger
    | float => exact hfloat
    | double => exact hfloat
  | array => exact .fixed (by simp [fixedTexts, ValueType.defaultLiteral])
  | untyped => exact .fixed (by simp [fixedTexts, ValueType.defaultLiteral])

theorem literal? {s : Scalar} {raw text : String} (h : s.literal? raw = some text) :
    IsCodeText text := by
  cases s with
  | string =>
    simp only [Scalar.literal?, Option.some.injEq] at h
    subst h
    simpa [Text.Literal.quote] using literal (String.ofList (Text.trim raw.toList))
  | boolean =>
    simp only [Scalar.literal?] at h
    split_ifs at h <;> cases h <;> exact .name (by decide +kernel)
  | integer signed w =>
    simp only [Scalar.literal?, Option.bind_eq_some_iff] at h
    obtain ⟨n, -, hn⟩ := h
    split_ifs at hn
    cases hn
    exact .number (isNumberChar_toString n)
  | float =>
    simp only [Scalar.literal?, Option.bind_eq_some_iff] at h
    obtain ⟨x, -, hx⟩ := h
    split_ifs at hx
    cases hx
    exact .number (NumberFormat.isNumberChar_render (List.forall_mem_nil _) x)
  | double =>
    simp only [Scalar.literal?, Option.map_eq_some_iff] at h
    obtain ⟨x, -, rfl⟩ := h
    exact .number (NumberFormat.isNumberChar_render (List.forall_mem_nil _) x)

end IsCodeText

/-! The texts that stand on the lines of some code. -/

def Line.text? : Line → Option String
  | blank => none
  | text _ t => some t

namespace Code

theorem filterMap_text?_shift (levels : Nat) (ls : List Line) :
    (ls.map (Line.shift levels)).filterMap Line.text? = ls.filterMap Line.text? := by
  rw [List.filterMap_map]
  congr 1
  funext l
  cases l <;> rfl

theorem filterMap_text?_linesOf (indent : Nat) (cs : List Code) :
    (linesOf indent cs).filterMap Line.text? = (linesOf 0 cs).filterMap Line.text? := by
  rw [← Nat.zero_add indent, linesOf_add, filterMap_text?_shift]

def texts (cs : List Code) : List String := (linesOf 0 cs).filterMap Line.text?

@[simp] theorem texts_nil : texts [] = [] := rfl

@[simp] theorem texts_append (xs ys : List Code) : texts (xs ++ ys) = texts xs ++ texts ys := by
  simp [texts]

@[simp] theorem texts_blank_cons (cs : List Code) : texts (.blank :: cs) = texts cs := by
  simp [texts, linesOf, lines, Line.text?, List.filterMap_cons]

@[simp] theorem texts_line_cons (text : String) (cs : List Code) :
    texts (.line text :: cs) = text :: texts cs := by
  simp [texts, linesOf, lines, Line.text?]

@[simp] theorem texts_block_cons (opening closing : String) (body cs : List Code) :
    texts (.block opening body closing :: cs) =
      opening :: texts body ++ closing :: texts cs := by
  simp [texts, linesOf, lines, Line.text?, filterMap_text?_linesOf 1 body]

@[simp] theorem texts_map_line (f : α → String) (xs : List α) :
    texts (xs.map fun x => .line (f x)) = xs.map f := by
  induction xs with
  | nil => rfl
  | cons x xs ih => simp [ih]

theorem texts_spaced (parts : List (List Code)) : texts (spaced parts) = parts.flatMap texts := by
  fun_induction spaced parts with
  | case1 => rfl
  | case2 part => simp
  | case3 part rest _ ih => simp [ih]

end Code

/-! Structs. -/

def docText (text : String) : String :=
  if (Text.trimEnd text.toList).isEmpty then "///"
  else "/// " ++ String.ofList (Text.trimEnd text.toList)

theorem docLine_eq (text : String) : docLine text = .line (docText text) := by
  unfold docLine docText
  dsimp only
  split <;> rfl

theorem texts_map_docLine (docs : List String) :
    Code.texts (docs.map docLine) = docs.map docText := by
  rw [show docLine = fun text => .line (docText text) from funext docLine_eq, Code.texts_map_line]

structure Constant.IsCode (c : Constant) : Prop where
  name : IsName c.name
  type : IsCodeText c.type
  literal : IsCodeText c.literal

namespace IsCodeText

theorem constant {c : Constant} (h : c.IsCode) :
    IsCodeText ("pub const " ++ c.name ++ ": " ++ c.type ++ " = " ++ c.literal ++ ";") :=
  ((((((fixed (by simp [fixedTexts])).append (.name h.name)).append_fixed
    (by simp [fixedTexts])).append h.type).append_fixed (by simp [fixedTexts])).append
    h.literal).append_fixed (by simp [fixedTexts])

theorem openBrace {head : String} (h : IsCodeText head) : IsCodeText (head ++ Source.openBrace) :=
  h.append_fixed (by simp [fixedTexts, Source.openBrace])

end IsCodeText

def AllCode (cs : List Code) : Prop := ∀ t ∈ Code.texts cs, IsCodeText t

namespace AllCode

theorem nil : AllCode [] := List.forall_mem_nil _

theorem append {xs ys : List Code} (hx : AllCode xs) (hy : AllCode ys) : AllCode (xs ++ ys) := by
  rw [AllCode, Code.texts_append]
  exact List.forall_mem_append.mpr ⟨hx, hy⟩

theorem blank {cs : List Code} (h : AllCode cs) : AllCode (.blank :: cs) := by
  rwa [AllCode, Code.texts_blank_cons]

theorem line {text : String} {cs : List Code} (ht : IsCodeText text) (h : AllCode cs) :
    AllCode (.line text :: cs) := by
  rw [AllCode, Code.texts_line_cons]
  exact List.forall_mem_cons.mpr ⟨ht, h⟩

theorem map_line {f : α → String} {xs : List α} (h : ∀ x ∈ xs, IsCodeText (f x)) :
    AllCode (xs.map fun x => .line (f x)) := by
  rw [AllCode, Code.texts_map_line]
  exact List.forall_mem_map.mpr h

theorem block {opening closing : String} {body cs : List Code} (ho : IsCodeText opening)
    (hbody : AllCode body) (hc : IsCodeText closing) (h : AllCode cs) :
    AllCode (.block opening body closing :: cs) := by
  rw [AllCode, Code.texts_block_cons]
  exact List.forall_mem_append.mpr
    ⟨List.forall_mem_cons.mpr ⟨ho, hbody⟩, List.forall_mem_cons.mpr ⟨hc, h⟩⟩

theorem braces {head : String} {body cs : List Code} (hhead : IsCodeText head)
    (hbody : AllCode body) (h : AllCode cs) : AllCode (Source.braces head body :: cs) :=
  block hhead.openBrace hbody (.fixed (by simp [fixedTexts, closeBrace])) h

end AllCode

namespace StructItem

variable {s : StructItem}

theorem allCode_declaration (h : s.IsWritable) {cs : List Code} (hcs : AllCode cs) :
    AllCode (s.declaration :: cs) := by
  have hvalue : IsCodeText ("pub " ++ valueField ++ ": " ++ s.value.rustType ++ ",") :=
    ((((IsCodeText.fixed (by simp [fixedTexts])).append (.name isName_valueField)).append_fixed
      (by simp [fixedTexts])).append (.rustType s.value)).append_fixed (by simp [fixedTexts])
  have hfield : ∀ f ∈ s.fields, IsCodeText ("pub " ++ f.name ++ ": " ++ f.type.text ++ ",") := by
    intro f hf
    obtain ⟨hname, htype⟩ := h.fields f hf
    exact ((((IsCodeText.fixed (by simp [fixedTexts])).append (.name hname)).append_fixed
      (by simp [fixedTexts])).append (.path htype)).append_fixed (by simp [fixedTexts])
  exact .braces (.fixed_append (by simp [fixedTexts]) (.name h.name))
    (.line hvalue (.map_line hfield)) hcs

theorem allCode_constantImpl (h : s.IsWritable) (hconstants : ∀ c ∈ s.constants, c.IsCode)
    {cs : List Code} (hcs : AllCode cs) : AllCode (s.constantImpl :: cs) :=
  .braces (.fixed_append (by simp [fixedTexts]) (.name h.name))
    (.map_line fun c hc => .constant (hconstants c hc)) hcs

theorem allCode_defaultImpl (h : s.IsWritable) {cs : List Code} (hcs : AllCode cs) :
    AllCode (s.defaultImpl :: cs) := by
  have hvalue : IsCodeText (valueField ++ ": " ++ s.value.defaultLiteral ++ ",") :=
    (((IsCodeText.name isName_valueField).append_fixed (by simp [fixedTexts])).append
      (.defaultLiteral s.value)).append_fixed (by simp [fixedTexts])
  have hfield : ∀ f ∈ s.fields, IsCodeText (f.name ++ ": Default::default(),") := fun f hf =>
    .append_fixed (.name (h.fields f hf).1) (by simp [fixedTexts])
  exact .braces (.fixed_append (by simp [fixedTexts]) (.name h.name))
    (.braces (.fixed (by simp [fixedTexts]))
      (.braces (.fixed (by simp [fixedTexts])) (.line hvalue (.map_line hfield)) .nil) .nil) hcs

theorem codeText_nodeTrait (s : StructItem) : IsCodeText (s.traitPath nodeTrait).text :=
  .path (s.isNamed_traitPath isName_nodeTrait)

theorem allCode_childList (h : s.IsWritable) : AllCode [s.childList] := by
  unfold childList
  split
  · exact .line (.fixed (by simp [fixedTexts])) .nil
  · refine .block (.fixed (by simp [fixedTexts])) (.map_line fun f hf => ?_)
      (.fixed (by simp [fixedTexts])) .nil
    have hname : IsCodeText f.name := .name (h.fields f hf).1
    exact (((hname.fixed_append (by simp [fixedTexts])).append_fixed (by simp [fixedTexts])).append
      s.codeText_nodeTrait).append_fixed (by simp [fixedTexts])

theorem allCode_nodeImpl (h : s.IsWritable) {cs : List Code} (hcs : AllCode cs) :
    AllCode (s.nodeImpl :: cs) := by
  have hhead : IsCodeText ("impl " ++ (s.traitPath nodeTrait).text ++ " for " ++ s.name) :=
    (((IsCodeText.fixed (by simp [fixedTexts])).append s.codeText_nodeTrait).append_fixed
      (by simp [fixedTexts])).append (.name h.name)
  have hchildren : IsCodeText
      ("fn children(&self) -> Vec<&dyn " ++ (s.traitPath nodeTrait).text ++ ">") :=
    ((IsCodeText.fixed (by simp [fixedTexts])).append s.codeText_nodeTrait).append_fixed
      (by simp [fixedTexts])
  exact .braces hhead
    (.braces (.fixed (by simp [fixedTexts])) (.line (.fixed (by simp [fixedTexts])) .nil)
      (.blank (.braces hchildren (allCode_childList h) .nil))) hcs

theorem allCode_parentImpl (h : s.IsWritable) {parent : TypePath} (hp : s.parent = some parent) :
    AllCode [s.parentImpl parent] := by
  have hhead : IsCodeText ("impl " ++ (s.traitPath childTrait).text ++ " for " ++ s.name) :=
    (((IsCodeText.fixed (by simp [fixedTexts])).append
      (.path (s.isNamed_traitPath isName_childTrait))).append_fixed (by simp [fixedTexts])).append
      (.name h.name)
  have hparent : IsCodeText ("type Parent = " ++ parent.text ++ ";") :=
    ((IsCodeText.fixed (by simp [fixedTexts])).append (.path (h.parent parent hp))).append_fixed
      (by simp [fixedTexts])
  exact .braces hhead (.line hparent .nil) .nil

theorem texts_code (h : s.IsWritable) (hconstants : ∀ c ∈ s.constants, c.IsCode) :
    ∃ below, Code.texts s.code = s.docs.map docText ++ below ∧ ∀ t ∈ below, IsCodeText t := by
  obtain ⟨tail, hcode, htail⟩ : ∃ tail, s.code = s.docs.map docLine ++
      ([.line "#[derive(Debug, Clone, PartialEq)]", s.declaration, .blank, s.constantImpl, .blank,
        s.defaultImpl, .blank, s.nodeImpl] ++ tail) ∧ AllCode tail := by
    refine ⟨_, List.append_assoc _ _ _, ?_⟩
    split
    · next parent hp => exact .blank (allCode_parentImpl h hp)
    · exact .nil
  have hbelow := AllCode.append (AllCode.line (.fixed (by simp [fixedTexts] :
    "#[derive(Debug, Clone, PartialEq)]" ∈ fixedTexts)) (allCode_declaration h (.blank
      (allCode_constantImpl h hconstants (.blank (allCode_defaultImpl h (.blank
        (allCode_nodeImpl h .nil)))))))) htail
  refine ⟨_, ?_, hbelow⟩
  rw [hcode, ← texts_map_docLine, ← Code.texts_append]

end StructItem

end SignalTree.Source
