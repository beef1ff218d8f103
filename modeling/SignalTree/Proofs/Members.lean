import SignalTree.Proofs.Emission
import SignalTree.Proofs.ItemDecl

/-!
The members of a written type. A text names them in three places: as the fields of the struct,
where the default sets them and in the list of children. Each place has them in the order of the
children, one for each (`members?_emitType`).
-/
namespace SignalTree.Source

namespace Outline

def inside : Outline → List Outline
  | line _ => []
  | block _ body => body

def label? : Outline → Option String
  | line content => (Text.splitOnce? ':' content).map fun (name, _) => String.ofList name
  | block .. => none

def castField? : Outline → Option String
  | line content =>
    match words content with
    | [reference, "as", "&dyn", _] =>
      (Text.stripPrefix? "&self.".toList reference.toList).map String.ofList
    | _ => none
  | block .. => none

def structFields? : Outline → Option (List String)
  | line _ => none
  | block head body =>
    match words head with
    | ["pub", "struct", _, _] => some ((body.filterMap field?).map Field.name)
    | _ => none

def defaultFields? : Outline → Option (List String)
  | line _ => none
  | block head body =>
    match words head with
    | ["impl", "Default", "for", _, _] =>
      some (((body.flatMap inside).flatMap inside).filterMap label?)
    | _ => none

def listedFields? : Outline → Option (List String)
  | line _ => none
  | block head body =>
    match words head with
    | ["fn", "children(&self)", "->", _, _, _] => some ((body.flatMap inside).filterMap castField?)
    | _ => none

def IsLine (o : Outline) : Prop := ∃ content, o = line content

theorem findSome?_lines {parts : List Outline} (h : ∀ o ∈ parts, o.IsLine) {α : Type}
    {f : Outline → Option α} (hf : ∀ content, f (line content) = none) :
    parts.findSome? f = none := by
  refine List.findSome?_eq_none_iff.mpr fun o ho => ?_
  obtain ⟨content, rfl⟩ := h o ho
  exact hf content

theorem defaultFields?_of_length {head : List Char} {body : List Outline}
    (h : (words head).length ≠ 5) : (block head body).defaultFields? = none := by
  rw [defaultFields?]
  split
  · next hwords => simp [hwords] at h
  · rfl

theorem listedFields?_of_not_mem {head : List Char} {body : List Outline}
    (h : "children(&self)" ∉ words head) : (block head body).listedFields? = none := by
  rw [listedFields?]
  split
  · next hwords => simp [hwords] at h
  · rfl

theorem flatMap_inside_lines {parts : List Outline} (h : ∀ o ∈ parts, o.IsLine) :
    parts.flatMap inside = [] := by
  refine List.flatMap_eq_nil_iff.mpr fun o ho => ?_
  obtain ⟨content, rfl⟩ := h o ho
  rfl

end Outline

/-- The members of a type as its text names them. -/
structure Members where
  fields : List String
  defaults : List String
  listed : List String
deriving DecidableEq

def members? (text : String) : Option Members := do
  let parts ← outline? text
  return {
    fields := ← parts.findSome? Outline.structFields?
    defaults := ← parts.findSome? Outline.defaultFields?
    listed := ← (parts.flatMap Outline.inside).findSome? Outline.listedFields? }

open Outline

/-! Lines of code stay lines. -/

theorem Code.isLine_of_mem_outlineOf {cs : List Code} (h : ∀ c ∈ cs, ∃ text, c = .line text) :
    ∀ o ∈ outlineOf cs, o.IsLine := by
  intro o ho
  rw [outlineOf_eq, List.mem_flatMap] at ho
  obtain ⟨c, hc, ho⟩ := ho
  obtain ⟨text, rfl⟩ := h c hc
  rw [outline] at ho
  split at ho
  · cases ho
  · exact ⟨_, List.mem_singleton.mp ho⟩

theorem Code.outlineOf_map_line {α : Type} {xs : List α} {text : α → String}
    (h : ∀ x ∈ xs, IsPlain (text x) ∧ (text x).toList ≠ []) :
    outlineOf (xs.map fun x => .line (text x)) = xs.map fun x => .line (text x).toList := by
  rw [outlineOf_eq, List.flatMap_map, List.map_eq_flatMap]
  exact List.flatMap_congr fun x hx => outline_line (h x hx).1 (h x hx).2

theorem Outline.label?_line {name rest : String} (hname : IsName name)
    (hrest : rest.toList.head? = some ':') : (line (name ++ rest).toList).label? = some name := by
  obtain ⟨cs, hcs⟩ := List.head?_eq_some_iff.mp hrest
  rw [label?, String.toList_append, hcs, Text.splitOnce?_append (hname.not_mem (by decide))]
  exact congrArg some String.ofList_toList

theorem Outline.castField?_line {name : String} {trait : TypePath} (hname : IsName name)
    (htrait : trait.IsNamed) :
    (line ("&self." ++ name ++ " as &dyn " ++ trait.text ++ ",").toList).castField? =
      some name := by
  rw [castField?, StructItem.words_cast hname htrait]
  simp only [String.toList_append, Text.stripPrefix?_append, Option.map_some, String.ofList_toList]

theorem isHead_defaultImpl {name : String} (h : IsName name) :
    Code.IsHead ("impl Default for " ++ name ++ openBrace) :=
  Code.isHead_braces 'i' (by simpa using h.not_mem (by decide)) (by simp) (by decide)

theorem words_defaultImpl {name : String} (h : IsName name) :
    words ("impl Default for " ++ name ++ openBrace).toList =
      ["impl", "Default", "for", name, "\x7b"] :=
  words_eq _ (by simp) (by simpa using h.not_mem (by decide)) (by simp [openBrace])

theorem isHead_valueHead : Code.IsHead ("Self" ++ openBrace) :=
  Code.isHead_braces 'S' (by simp) (by simp) (by decide)

namespace StructItem

variable {s : StructItem} (h : s.IsWritable)

def memberNames (s : StructItem) : List String := s.fields.map Field.name

include h

theorem structFields?_declaration :
    s.declaration.outline.findSome? structFields? = some (valueField :: s.memberNames) := by
  have hdecls := decls_declaration h
  have hwords := words_declaration h.name
  rw [declaration, braces, Code.outline_block (isHead_declaration h.name),
    Outline.declsOf_singleton, Outline.decls_struct hwords, List.cons.injEq,
    Decl.struct.injEq] at hdecls
  rw [declaration, braces, Code.outline_block (isHead_declaration h.name), List.findSome?_cons]
  simp only [structFields?, hwords, hdecls.1.2]
  rfl

theorem filterMap_label? : (Code.outlineOf (.line (valueField ++ ": " ++ s.value.defaultLiteral ++
    ",") :: s.fields.map fun f => .line (f.name ++ ": Default::default(),"))).filterMap label? =
      valueField :: s.memberNames := by
  have hfields : ∀ f ∈ s.fields, Code.IsPlain (f.name ++ ": Default::default(),") ∧
      (f.name ++ ": Default::default(),").toList ≠ [] :=
    fun f hf => ⟨isPlain_fieldDefault (h.fields f hf).1, by simp⟩
  have hvalue : (line (valueField ++ ": " ++ s.value.defaultLiteral ++ ",").toList).label? =
      some valueField := by
    rw [String.append_assoc, String.append_assoc]
    exact label?_line isName_valueField (by simp)
  rw [Code.outlineOf, Code.outline_line s.isPlain_valueDefault (by simp),
    Code.outlineOf_map_line hfields, List.singleton_append, List.filterMap_cons, hvalue,
    List.filterMap_map, memberNames, ← List.filterMap_eq_map]
  refine congrArg (valueField :: ·) (List.filterMap_congr fun f hf => ?_)
  exact label?_line (h.fields f hf).1 (by simp)

theorem defaultFields?_defaultImpl :
    s.defaultImpl.outline.findSome? defaultFields? = some (valueField :: s.memberNames) := by
  have hinside : ((Code.outlineOf [braces "fn default() -> Self" [braces "Self" <|
      .line (valueField ++ ": " ++ s.value.defaultLiteral ++ ",") ::
        s.fields.map fun f => .line (f.name ++ ": Default::default(),")]]).flatMap inside).flatMap
      inside = Code.outlineOf (.line (valueField ++ ": " ++ s.value.defaultLiteral ++ ",") ::
        s.fields.map fun f => .line (f.name ++ ": Default::default(),")) := by
    simp only [Code.outlineOf, braces, Code.outline_block isHead_defaultHead,
      Code.outline_block isHead_valueHead, List.append_nil, List.flatMap_singleton, inside]
  rw [defaultImpl, braces, Code.outline_block (isHead_defaultImpl h.name), List.findSome?_cons]
  simp only [defaultFields?, words_defaultImpl h.name, hinside, filterMap_label? h]

theorem filterMap_castField? :
    ((Code.outlineOf [s.childList]).flatMap inside).filterMap castField? = s.memberNames := by
  have htrait := s.isNamed_traitPath isName_nodeTrait
  have hfields : ∀ f ∈ s.fields,
      Code.IsPlain ("&self." ++ f.name ++ " as &dyn " ++ (s.traitPath nodeTrait).text ++ ",") ∧
      ("&self." ++ f.name ++ " as &dyn " ++ (s.traitPath nodeTrait).text ++ ",").toList ≠ [] :=
    fun f hf => ⟨isPlain_cast (h.fields f hf).1 htrait, by simp⟩
  rw [Code.outlineOf, Code.outlineOf, List.append_nil, childList]
  split
  · next hnone =>
    have hplain : Code.IsPlain "Vec::new()" :=
      Code.isPlain_of 'V' ')' (by simp) (by simp) (by simp) (by decide) (by decide)
    rw [Code.outline_line hplain (by simp), memberNames, List.isEmpty_iff.mp hnone]
    rfl
  · rw [Code.outline_block isHead_list, List.flatMap_singleton, inside,
      Code.outlineOf_map_line hfields, List.filterMap_map, memberNames, ← List.filterMap_eq_map]
    exact List.filterMap_congr fun f hf => castField?_line (h.fields f hf).1 htrait

theorem listedFields?_nodeImpl :
    (s.nodeImpl.outline.flatMap inside).findSome? listedFields? = some s.memberNames := by
  have htrait := s.isNamed_traitPath isName_nodeTrait
  have hpath : "children(&self)" ∉
      words ("fn vss_path(&self) -> &'static str" ++ openBrace).toList := by
    decide +kernel
  have hblank : Code.blank.outline = [] := rfl
  have hinside : s.nodeImpl.outline.flatMap inside =
      [.block ("fn vss_path(&self) -> &'static str" ++ openBrace).toList
          (Code.outlineOf [.line "Self::VSS_PATH"]),
        .block ("fn children(&self) -> Vec<&dyn " ++ (s.traitPath nodeTrait).text ++ ">" ++
          openBrace).toList (Code.outlineOf [s.childList])] := by
    simp only [nodeImpl, braces, Code.outline_block (isHead_implFor htrait h.name), Code.outlineOf,
      hblank, Code.outline_block isHead_pathHead, Code.outline_block (isHead_listHead htrait),
      List.flatMap_singleton, inside, List.append_nil, List.nil_append, List.singleton_append]
  rw [hinside, List.findSome?_cons, listedFields?_of_not_mem hpath]
  simp only [List.findSome?_cons, listedFields?, words_listHead htrait, filterMap_castField? h]

/-! The other parts of a struct name no members in these places. -/

theorem defaultFields?_declaration : s.declaration.outline.findSome? defaultFields? = none := by
  rw [declaration, braces, Code.outline_block (isHead_declaration h.name), List.findSome?_singleton]
  exact defaultFields?_of_length (by rw [words_declaration h.name]; simp)

theorem listedFields?_declaration :
    (s.declaration.outline.flatMap inside).findSome? listedFields? = none := by
  rw [declaration, braces, Code.outline_block (isHead_declaration h.name), List.flatMap_singleton]
  refine findSome?_lines (Code.isLine_of_mem_outlineOf fun c hc => ?_) fun _ => rfl
  rcases List.mem_cons.mp hc with rfl | hc
  · exact ⟨_, rfl⟩
  · obtain ⟨f, -, rfl⟩ := List.mem_map.mp hc
    exact ⟨_, rfl⟩

theorem defaultFields?_constantImpl : s.constantImpl.outline.findSome? defaultFields? = none := by
  rw [constantImpl, braces, Code.outline_block (isHead_impl h.name), List.findSome?_singleton]
  exact defaultFields?_of_length (by rw [words_impl h.name]; simp)

theorem listedFields?_constantImpl :
    (s.constantImpl.outline.flatMap inside).findSome? listedFields? = none := by
  rw [constantImpl, braces, Code.outline_block (isHead_impl h.name), List.flatMap_singleton]
  refine findSome?_lines (Code.isLine_of_mem_outlineOf fun c hc => ?_) fun _ => rfl
  obtain ⟨constant, -, rfl⟩ := List.mem_map.mp hc
  exact ⟨_, rfl⟩

theorem listedFields?_defaultImpl :
    (s.defaultImpl.outline.flatMap inside).findSome? listedFields? = none := by
  have hdefault : "children(&self)" ∉ words ("fn default() -> Self" ++ openBrace).toList := by
    decide +kernel
  rw [defaultImpl, braces, Code.outline_block (isHead_defaultImpl h.name), List.flatMap_singleton,
    inside, Code.outlineOf, Code.outlineOf, List.append_nil, braces,
    Code.outline_block isHead_defaultHead, List.findSome?_singleton]
  exact listedFields?_of_not_mem hdefault

omit h in
theorem exists_outlineOf_code (s : StructItem) : ∃ lines more, (∀ o ∈ lines, o.IsLine) ∧
    Code.outlineOf s.code = lines ++ (s.declaration.outline ++ (s.constantImpl.outline ++
      (s.defaultImpl.outline ++ (s.nodeImpl.outline ++ more)))) := by
  have hlines : ∀ c ∈ s.docs.map docLine ++ [.line "#[derive(Debug, Clone, PartialEq)]"],
      ∃ text, c = .line text := by
    intro c hc
    rcases List.mem_append.mp hc with hc | hc
    · obtain ⟨text, -, rfl⟩ := List.mem_map.mp hc
      exact ⟨_, docLine_eq text⟩
    · exact ⟨_, List.mem_singleton.mp hc⟩
  obtain ⟨tail, hcode⟩ : ∃ tail, s.code = s.docs.map docLine ++ [
      .line "#[derive(Debug, Clone, PartialEq)]", s.declaration, .blank, s.constantImpl, .blank,
      s.defaultImpl, .blank, s.nodeImpl] ++ tail := ⟨_, rfl⟩
  have hblank : Code.blank.outline = [] := rfl
  refine ⟨_, Code.outlineOf tail, Code.isLine_of_mem_outlineOf hlines, ?_⟩
  rw [hcode]
  simp only [Code.outlineOf_append, Code.outlineOf, hblank, List.nil_append, List.append_nil,
    List.append_assoc]

theorem members?_of_outline {text : String} {rest : List Outline}
    (htext : outline? text = some (Code.outlineOf s.code ++ rest)) :
    members? text = some ⟨valueField :: s.memberNames, valueField :: s.memberNames,
      s.memberNames⟩ := by
  obtain ⟨lines, more, hlines, hcode⟩ := s.exists_outlineOf_code
  have hfields : (Code.outlineOf s.code ++ rest).findSome? structFields? =
      some (valueField :: s.memberNames) := by
    have hfirst : lines.findSome? structFields? = none := findSome?_lines hlines fun _ => rfl
    rw [hcode]
    simp only [List.append_assoc, List.findSome?_append, hfirst, structFields?_declaration h,
      Option.none_or, Option.some_or]
  have hdefaults : (Code.outlineOf s.code ++ rest).findSome? defaultFields? =
      some (valueField :: s.memberNames) := by
    have hfirst : lines.findSome? defaultFields? = none := findSome?_lines hlines fun _ => rfl
    rw [hcode]
    simp only [List.append_assoc, List.findSome?_append, hfirst, defaultFields?_declaration h,
      defaultFields?_constantImpl h, defaultFields?_defaultImpl h, Option.none_or, Option.some_or]
  have hlisted : ((Code.outlineOf s.code ++ rest).flatMap inside).findSome? listedFields? =
      some s.memberNames := by
    rw [hcode]
    simp only [List.append_assoc, List.flatMap_append, List.findSome?_append,
      flatMap_inside_lines hlines, List.nil_append, listedFields?_declaration h,
      listedFields?_constantImpl h, listedFields?_defaultImpl h, listedFields?_nodeImpl h,
      Option.none_or, Option.some_or]
  rw [members?, htext]
  simp only [Option.bind_eq_bind, Option.bind_some, hfields, hdefaults, hlisted]
  rfl

end StructItem

/-! The text of a type begins with its struct. -/

section

variable {units : List TypeUnit} {loc : Location} {isUnit : Bool} {parent : Option TypePath}
  {t : TypeDecl}

theorem StandsAt.exists_items (hnamed : ∀ u ∈ units, u.IsNamed)
    (h : StandsAt units loc isUnit parent t) :
    ∃ items, emitType isUnit (loc.length - 1) parent t = Code.callsOf (Code.spaced (Item.codesOf
        (.struct (structItem isUnit loc.length parent t) :: items))) ∧
      Item.EachWritable (.struct (structItem isUnit loc.length parent t) :: items) := by
  cases h with
  | @unit u hm => exact ⟨_, emitType_unit_eq u, eachWritable_unitItems (hnamed u hm)⟩
  | @nested loc isUnit parent s _ hs hd =>
    have hdepth : (loc ++ innerModules isUnit s.name).length - 1 + 1 =
        (loc ++ innerModules isUnit s.name).length := Nat.sub_add_cancel (hs.nested hd).length_pos
    obtain ⟨u, hm, hsu⟩ := List.mem_flatMap.mp hs.mem_types
    have hdu := TypeDecl.mem_types_of_mem_nested hsu hd
    have hparent : (innerParent isUnit s.name).IsNamed := by
      refine ⟨?_, ((hnamed u hm).types s hsu).isName⟩
      cases isUnit with
      | true => simp
      | false => simpa using TypePath.isName_upward
    have hwritable := eachWritable_nestedItems (loc ++ innerModules isUnit s.name).length t
      (fun e he => (hnamed u hm).types e (TypeDecl.mem_types_trans hdu he))
      (fun e he => (hnamed u hm).children e (TypeDecl.mem_types_trans hdu he)) hparent
    have hcalls := emitType_eq ((loc ++ innerModules isUnit s.name).length - 1)
      (innerParent isUnit s.name) t
    rw [hdepth, nestedItems_eq] at hcalls
    rw [nestedItems_eq] at hwritable
    exact ⟨_, hcalls, hwritable⟩

theorem StandsAt.members?_written (hnamed : ∀ u ∈ units, u.IsNamed)
    (h : StandsAt units loc isUnit parent t) (indent : Nat) :
    members? (String.ofList (Writer.written indent (emitType isUnit (loc.length - 1) parent t))) =
      some {
        fields := valueField :: t.children.map fun c => fieldName c.path
        defaults := valueField :: t.children.map fun c => fieldName c.path
        listed := t.children.map fun c => fieldName c.path } := by
  obtain ⟨items, hcalls, hwritable⟩ := h.exists_items hnamed
  have houtline := Code.outline?_linesOf indent (Item.declares_codesOf _ hwritable).1
  rw [Item.codesOf, Code.spaced_cons, Item.code, Code.outlineOf_append] at houtline
  have hnames : (structItem isUnit loc.length parent t).memberNames =
      t.children.map fun c => fieldName c.path := by
    simp only [StructItem.memberNames, structItem, List.map_map, Function.comp_def]
  rw [hcalls, Code.written_callsOf, Item.codesOf, Code.spaced_cons, Item.code,
    StructItem.members?_of_outline hwritable.1 houtline, hnames]

end

end SignalTree.Source
