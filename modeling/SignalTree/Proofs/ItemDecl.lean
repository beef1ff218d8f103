import SignalTree.Proofs.Declaration

/-!
What is read from the code of items is what the items declare (`declsOf_codesOf`), and
a struct has the path of its node in a constant (`paths_structItem`).
-/
namespace SignalTree.Source

namespace StructItem

variable {s : StructItem}

def paths (s : StructItem) : List String :=
  (Code.outlineOf (s.constants.map Constant.code)).filterMap Outline.path?

def decls (s : StructItem) : List Decl :=
  [.struct s.name (⟨valueField, .ofText s.value.rustType⟩ :: s.fields),
    .impl ⟨none, s.name, s.paths, [], []⟩,
    .impl ⟨some ⟨[], "Default"⟩, s.name, [], [], []⟩,
    .impl ⟨some (s.traitPath nodeTrait), s.name, [],
      s.traitPath nodeTrait :: s.fields.map fun _ => s.traitPath nodeTrait, []⟩] ++
  (s.parent.map fun parent =>
    Decl.impl ⟨some (s.traitPath childTrait), s.name, [], [], [parent]⟩).toList

theorem filterMap_field? {fields : List (String × String)}
    (h : ∀ f ∈ fields, IsName f.1 ∧ '\n' ∉ f.2.toList ∧ ' ' ∉ f.2.toList) :
    (Code.outlineOf (fields.map fun f => fieldLine f.1 f.2)).filterMap Outline.field? =
      fields.map fun f => ⟨f.1, .ofText f.2⟩ := by
  induction fields with
  | nil => rfl
  | cons f fields ih =>
    obtain ⟨hname, hnewline, hspace⟩ := h f List.mem_cons_self
    have hline : (fieldLine f.1 f.2).outline =
        [.line ("pub " ++ f.1 ++ ": " ++ f.2 ++ ",").toList] :=
      Code.outline_line (isPlain_field hname hnewline) (by simp)
    rw [List.map_cons, Code.outlineOf, hline, List.singleton_append, List.filterMap_cons,
      Outline.field?_eq hname hspace, ih fun g hg => h g (List.mem_cons_of_mem _ hg), List.map_cons]

theorem words_declaration {name : String} (h : IsName name) :
    words ("pub struct " ++ name ++ openBrace).toList = ["pub", "struct", name, "\x7b"] :=
  words_eq _ (by simp) (by simpa using h.not_mem (by decide)) (by simp [openBrace])

theorem decls_declaration (h : s.IsWritable) :
    Outline.declsOf s.declaration.outline =
      [.struct s.name (⟨valueField, .ofText s.value.rustType⟩ :: s.fields)] := by
  have hbody : ∀ f ∈ (valueField, s.value.rustType) :: s.fields.map fun f => (f.name, f.type.text),
      IsName f.1 ∧ '\n' ∉ f.2.toList ∧ ' ' ∉ f.2.toList := by
    intro f hf
    rcases List.mem_cons.mp hf with rfl | hf
    · exact ⟨isName_valueField, s.value.newline_not_mem_rustType, s.value.space_not_mem_rustType⟩
    · obtain ⟨g, hg, rfl⟩ := List.mem_map.mp hf
      obtain ⟨hname, htype⟩ := h.fields g hg
      exact ⟨hname, htype.newline_not_mem, htype.not_mem_text (by decide) (by decide)⟩
  have hfields : s.fields.map (fun f => Field.mk f.name (.ofText f.type.text)) = s.fields := by
    conv_rhs => rw [← List.map_id s.fields]
    refine List.map_congr_left fun f hf => ?_
    rw [TypePath.ofText_text (h.fields f hf).2]
    rfl
  have hread := filterMap_field? hbody
  rw [List.map_cons, List.map_cons, List.map_map, List.map_map] at hread
  rw [declaration, braces, Code.outline_block (isHead_declaration h.name),
    Outline.declsOf_singleton, Outline.decls_struct (words_declaration h.name)]
  refine congrArg (fun fields => [Decl.struct s.name fields]) (hread.trans ?_)
  exact congrArg _ hfields

theorem words_impl {name : String} (h : IsName name) :
    words ("impl " ++ name ++ openBrace).toList = ["impl", name, "\x7b"] :=
  words_eq _ (by simp) (by simpa using h.not_mem (by decide)) (by simp [openBrace])

theorem words_implFor {trait : TypePath} {name : String} (htrait : trait.IsNamed)
    (h : IsName name) :
    words ("impl " ++ trait.text ++ " for " ++ name ++ openBrace).toList =
      ["impl", trait.text, "for", name, "\x7b"] :=
  words_eq _ (by simp)
    (by simpa using ⟨htrait.not_mem_text (by decide) (by decide), h.not_mem (by decide)⟩)
    (by simp [openBrace])

theorem isHead_impl {name : String} (h : IsName name) :
    Code.IsHead ("impl " ++ name ++ openBrace) :=
  Code.isHead_braces 'i' (by simpa using h.not_mem (by decide)) (by simp) (by decide)

theorem isHead_implFor {trait : TypePath} {name : String} (htrait : trait.IsNamed)
    (h : IsName name) : Code.IsHead ("impl " ++ trait.text ++ " for " ++ name ++ openBrace) :=
  Code.isHead_braces 'i' (by simpa using ⟨htrait.newline_not_mem, h.not_mem (by decide)⟩) (by simp)
    (by decide)

theorem decls_constantImpl (h : s.IsWritable) :
    Outline.declsOf s.constantImpl.outline = [.impl ⟨none, s.name, s.paths, [], []⟩] := by
  rw [constantImpl, braces, Code.outline_block (isHead_impl h.name), Outline.declsOf_singleton,
    Outline.decls_impl (words_impl h.name)]
  rfl

theorem isNamed_default : TypePath.IsNamed ⟨[], "Default"⟩ :=
  ⟨by simp, by simp [IsName, isNameChar]⟩

theorem isHead_defaultHead : Code.IsHead ("fn default() -> Self" ++ openBrace) :=
  Code.isHead_braces 'f' (by simp) (by simp) (by decide)

theorem decls_defaultImpl (h : s.IsWritable) :
    Outline.declsOf s.defaultImpl.outline =
      [.impl ⟨some ⟨[], "Default"⟩, s.name, [], [], []⟩] := by
  have hhead := isHead_implFor isNamed_default h.name
  have hwords := words_implFor isNamed_default h.name
  have hdefault : (TypePath.mk [] "Default").text = "Default" := by simp [TypePath.text]
  have hopen : "impl Default for " ++ s.name ++ openBrace =
      "impl " ++ (TypePath.mk [] "Default").text ++ " for " ++ s.name ++ openBrace := by
    rw [hdefault]
    simp
  have hnone : "children(&self)" ∉ words ("fn default() -> Self" ++ openBrace).toList := by
    decide +kernel
  rw [defaultImpl, braces, hopen, Code.outline_block hhead, Outline.declsOf_singleton,
    Outline.decls_implFor hwords, Code.outlineOf, Code.outlineOf, List.append_nil, braces,
    Code.outline_block isHead_defaultHead, List.flatMap_singleton, Outline.views_of_not_mem hnone,
    TypePath.ofText_text isNamed_default]
  rfl

theorem words_cast {name : String} {trait : TypePath} (hname : IsName name)
    (htrait : trait.IsNamed) : words ("&self." ++ name ++ " as &dyn " ++ trait.text ++ ",").toList =
      ["&self." ++ name, "as", "&dyn", trait.text ++ ","] :=
  words_eq _ (by simp)
    (by simpa using ⟨hname.not_mem (by decide), htrait.not_mem_text (by decide) (by decide)⟩)
    (by simp)

theorem filterMap_cast? (names : List String) {trait : TypePath} (htrait : trait.IsNamed)
    (h : ∀ n ∈ names, IsName n) :
    (Code.outlineOf (names.map fun n =>
      Code.line ("&self." ++ n ++ " as &dyn " ++ trait.text ++ ","))).filterMap Outline.cast? =
        names.map fun _ => trait := by
  induction names with
  | nil => rfl
  | cons n names ih =>
    have hname := h n List.mem_cons_self
    have hline : (Code.line ("&self." ++ n ++ " as &dyn " ++ trait.text ++ ",")).outline =
        [.line ("&self." ++ n ++ " as &dyn " ++ trait.text ++ ",").toList] :=
      Code.outline_line (isPlain_cast hname htrait) (by simp)
    have hread : (Outline.line ("&self." ++ n ++ " as &dyn " ++ trait.text ++ ",").toList).cast? =
        some trait := by
      rw [Outline.cast?, words_cast hname htrait]
      simp only [dropMark?_append _ (show ",".toList = [','] by simp), Option.map_some,
        TypePath.ofText_text htrait]
    rw [List.map_cons, Code.outlineOf, hline, List.singleton_append, List.filterMap_cons, hread,
      ih fun m hm => h m (List.mem_cons_of_mem _ hm), List.map_cons]

theorem casts_childList (h : s.IsWritable) :
    (Code.outlineOf [s.childList]).flatMap Outline.casts =
      s.fields.map fun _ => s.traitPath nodeTrait := by
  have htrait := s.isNamed_traitPath isName_nodeTrait
  rw [Code.outlineOf, Code.outlineOf, List.append_nil, childList]
  cases hf : s.fields with
  | nil =>
    have hplain : Code.IsPlain "Vec::new()" :=
      Code.isPlain_of 'V' ')' (by simp) (by simp) (by simp) (by decide) (by decide)
    rw [List.isEmpty_nil, if_pos rfl, Code.outline_line hplain (by simp)]
    rfl
  | cons f fields =>
    rw [List.isEmpty_cons, if_neg Bool.false_ne_true, Code.outline_block isHead_list, ← hf]
    have hread := filterMap_cast? (s.fields.map Field.name) htrait (by
      intro n hn
      obtain ⟨g, hg, rfl⟩ := List.mem_map.mp hn
      exact (h.fields g hg).1)
    rw [List.map_map, List.map_map] at hread
    rw [List.flatMap_singleton, Outline.casts]
    exact hread

theorem words_listHead {trait : TypePath} (h : trait.IsNamed) :
    words ("fn children(&self) -> Vec<&dyn " ++ trait.text ++ ">" ++ openBrace).toList =
      ["fn", "children(&self)", "->", "Vec<&dyn", trait.text ++ ">", "\x7b"] :=
  words_eq _ (by simp) (by simpa using h.not_mem_text (by decide) (by decide)) (by simp [openBrace])

theorem views_listImpl (h : s.IsWritable) :
    (Outline.block ("fn children(&self) -> Vec<&dyn " ++ (s.traitPath nodeTrait).text ++ ">" ++
      openBrace).toList (Code.outlineOf [s.childList])).views =
        s.traitPath nodeTrait :: s.fields.map fun _ => s.traitPath nodeTrait := by
  have htrait := s.isNamed_traitPath isName_nodeTrait
  rw [Outline.views, words_listHead htrait]
  simp only [dropMark?_append _ (show ">".toList = ['>'] by simp), Option.map_some,
    TypePath.ofText_text htrait, Option.toList_some, List.singleton_append, casts_childList h]

theorem isHead_pathHead : Code.IsHead ("fn vss_path(&self) -> &'static str" ++ openBrace) :=
  Code.isHead_braces 'f' (by simp) (by simp) (by decide)

theorem isHead_listHead {trait : TypePath} (h : trait.IsNamed) :
    Code.IsHead ("fn children(&self) -> Vec<&dyn " ++ trait.text ++ ">" ++ openBrace) :=
  Code.isHead_braces 'f' (by simpa using h.newline_not_mem) (by simp) (by decide)

theorem decls_nodeImpl (h : s.IsWritable) :
    Outline.declsOf s.nodeImpl.outline =
      [.impl ⟨some (s.traitPath nodeTrait), s.name, [],
        s.traitPath nodeTrait :: s.fields.map fun _ => s.traitPath nodeTrait, []⟩] := by
  have htrait := s.isNamed_traitPath isName_nodeTrait
  have hnone : "children(&self)" ∉
      words ("fn vss_path(&self) -> &'static str" ++ openBrace).toList := by
    decide +kernel
  rw [nodeImpl, braces, Code.outline_block (isHead_implFor htrait h.name),
    Outline.declsOf_singleton, Outline.decls_implFor (words_implFor htrait h.name),
    TypePath.ofText_text htrait, Code.outlineOf_eq, List.flatMap_cons, List.flatMap_cons,
    List.flatMap_singleton, braces, braces, Code.outline_block isHead_pathHead,
    Code.outline_block (isHead_listHead htrait),
    List.flatMap_append, List.flatMap_append, List.flatMap_singleton, List.flatMap_singleton,
    Outline.views_of_not_mem hnone, views_listImpl h]
  rfl

theorem decls_parentImpl (h : s.IsWritable) {parent : TypePath} (hp : s.parent = some parent) :
    Outline.declsOf (s.parentImpl parent).outline =
      [.impl ⟨some (s.traitPath childTrait), s.name, [], [], [parent]⟩] := by
  have htrait := s.isNamed_traitPath isName_childTrait
  have hparent := h.parent parent hp
  have hline : (Code.line ("type Parent = " ++ parent.text ++ ";")).outline =
      [.line ("type Parent = " ++ parent.text ++ ";").toList] :=
    Code.outline_line (isPlain_parent hparent) (by simp)
  have hread : (Outline.line ("type Parent = " ++ parent.text ++ ";").toList).parent? =
      some parent := by
    have hwords : words ("type Parent = " ++ parent.text ++ ";").toList =
        ["type", "Parent", "=", parent.text ++ ";"] :=
      words_eq _ (by simp) (by simpa using hparent.not_mem_text (by decide) (by decide)) (by simp)
    rw [Outline.parent?, hwords]
    simp only [dropMark?_append _ (show ";".toList = [';'] by simp), Option.map_some,
      TypePath.ofText_text hparent]
  rw [parentImpl, braces, Code.outline_block (isHead_implFor htrait h.name),
    Outline.declsOf_singleton, Outline.decls_implFor (words_implFor htrait h.name),
    TypePath.ofText_text htrait, Code.outlineOf, hline, Code.outlineOf, List.append_nil,
    List.filterMap_cons, hread]
  rfl

theorem declsOf_docs (docs : List String) :
    Outline.declsOf (Code.outlineOf (docs.map docLine)) = [] := by
  induction docs with
  | nil => rfl
  | cons text docs ih =>
    have hline : ∃ line, docLine text = .line line := by
      unfold docLine
      dsimp only
      split
      · exact ⟨_, rfl⟩
      · exact ⟨_, rfl⟩
    obtain ⟨line, hline⟩ := hline
    rw [List.map_cons, Code.outlineOf, Outline.declsOf_append, hline, Code.declsOf_outline_line, ih]
    rfl

theorem declsOf_code (h : s.IsWritable) :
    Outline.declsOf (Code.outlineOf s.code) = s.decls := by
  have hblank : Outline.declsOf Code.blank.outline = [] := rfl
  have hall (rest : List Code) : Outline.declsOf (Code.outlineOf (s.docs.map docLine ++ [
      .line "#[derive(Debug, Clone, PartialEq)]", s.declaration, .blank, s.constantImpl, .blank,
      s.defaultImpl, .blank, s.nodeImpl] ++ rest)) =
      [.struct s.name (⟨valueField, .ofText s.value.rustType⟩ :: s.fields),
        .impl ⟨none, s.name, s.paths, [], []⟩,
        .impl ⟨some ⟨[], "Default"⟩, s.name, [], [], []⟩,
        .impl ⟨some (s.traitPath nodeTrait), s.name, [],
          s.traitPath nodeTrait :: s.fields.map fun _ => s.traitPath nodeTrait, []⟩] ++
        Outline.declsOf (Code.outlineOf rest) := by
    simp only [Code.outlineOf_append, Code.outlineOf, Outline.declsOf_append, declsOf_docs,
      Code.declsOf_outline_line, hblank, decls_declaration h, decls_constantImpl h,
      decls_defaultImpl h, decls_nodeImpl h, List.nil_append, List.cons_append]
    rfl
  unfold code
  split
  · next parent hp =>
    rw [hall, decls, hp, Code.outlineOf, Code.outlineOf, Code.outlineOf, List.append_nil,
      Outline.declsOf_append, hblank, decls_parentImpl h hp]
    rfl
  · next hp =>
    rw [hall, decls, hp]
    rfl

end StructItem

namespace Item

mutual

def decls : Item → List Decl
  | struct item => item.decls
  | module name items => [.module name (declsOf items)]

def declsOf : List Item → List Decl
  | [] => []
  | item :: rest => item.decls ++ declsOf rest

end

theorem outlineOf_spaced (parts : List (List Code)) :
    Code.outlineOf (Code.spaced parts) = parts.flatMap Code.outlineOf := by
  rw [Code.outlineOf_eq, Code.flatMap_spaced rfl]
  exact List.flatMap_congr fun part _ => (Code.outlineOf_eq part).symm

mutual

theorem declsOf_code (i : Item) (hi : i.IsWritable) :
    Outline.declsOf (Code.outlineOf i.code) = i.decls := by
  match i with
  | struct item => exact item.declsOf_code hi
  | module name items =>
    obtain ⟨hname, hitems⟩ := hi
    have hwords : words ("pub mod " ++ name ++ openBrace).toList = ["pub", "mod", name, "\x7b"] :=
      words_eq _ (by simp) (by simpa using hname.not_mem (by decide)) (by simp [openBrace])
    rw [code, Code.outlineOf, braces, Code.outline_block (isHead_module hname),
      Code.outlineOf, List.append_nil, Outline.declsOf_singleton, Outline.decls_module hwords,
      outlineOf_spaced, declsOf_codesOf items hitems, decls]

/-- What is read from written items is what they declare. -/
theorem declsOf_codesOf (items : List Item) (hitems : EachWritable items) :
    Outline.declsOf ((codesOf items).flatMap Code.outlineOf) = declsOf items := by
  match items with
  | [] => rfl
  | i :: rest =>
    rw [codesOf, List.flatMap_cons, Outline.declsOf_append, declsOf_code i hitems.1,
      declsOf_codesOf rest hitems.2, declsOf]

end

end Item

/-! The path constant of a struct. -/

theorem pathWord_eq : Outline.pathWord =
    "pub const ".toList ++ 'V' :: "SS_PATH: &'static str = ".toList := by
  cbv

theorem path?_textConstant (value : String) :
    (Outline.line (("pub const " ++ "VSS_PATH" ++ ": " ++ "&'static str" ++ " = " ++
      Text.Literal.quote value ++ ";").toList)).path? = some (Text.Literal.quote value) := by
  have hprefix : Text.stripPrefix? Outline.pathWord ("pub const " ++ "VSS_PATH" ++ ": " ++
      "&'static str" ++ " = " ++ Text.Literal.quote value ++ ";").toList =
        some (Text.Literal.quote value ++ ";").toList :=
    Text.stripPrefix?_eq_some.mpr (by simp [pathWord_eq])
  have hsuffix := dropMark?_append (Text.Literal.quote value) (show ";".toList = [';'] by simp)
  rw [Outline.path?, hprefix, Option.bind_some]
  exact hsuffix

theorem path?_of_head? {c : Constant} (h : c.name.toList.head? ≠ some 'V') :
    (Outline.line
      ("pub const " ++ c.name ++ ": " ++ c.type ++ " = " ++ c.literal ++ ";").toList).path? =
        none := by
  have hnone : Text.stripPrefix? Outline.pathWord
      ("pub const " ++ c.name ++ ": " ++ c.type ++ " = " ++ c.literal ++ ";").toList = none := by
    by_contra hne
    obtain ⟨rest, hrest⟩ := Option.ne_none_iff_exists'.mp hne
    rw [Text.stripPrefix?_eq_some, pathWord_eq] at hrest
    simp only [String.toList_append, List.append_assoc, List.append_cancel_left_eq] at hrest
    cases hname : c.name.toList with
    | nil => simp [hname] at hrest
    | cons d name =>
      rw [hname, List.cons_append, List.cons_append] at hrest
      exact h (by rw [hname, List.head?_cons, (List.cons.inj hrest).1])
  rw [Outline.path?, hnone]
  rfl

theorem filterMap_path?_of_head? {cs : List Constant}
    (h : ∀ c ∈ cs, c.OneLine ∧ c.name.toList.head? ≠ some 'V') :
    (Code.outlineOf (cs.map Constant.code)).filterMap Outline.path? = [] := by
  induction cs with
  | nil => rfl
  | cons c cs ih =>
    obtain ⟨hline, hhead⟩ := h c List.mem_cons_self
    rw [List.map_cons, Code.outlineOf, Constant.code,
      Code.outline_line (StructItem.isPlain_constant hline) (by simp), List.singleton_append,
      List.filterMap_cons, path?_of_head? hhead, ih fun d hd => h d (List.mem_cons_of_mem _ hd)]

theorem exists_constants_eq (n : Node) : ∃ rest,
    constants n = textConstant "VSS_PATH" n.path.text :: rest ∧
      ∀ c ∈ rest, c.name.toList.head? ≠ some 'V' := by
  have hoptional {c : Constant} {name : String} {value : Option String}
      (hname : name.toList.head? ≠ some 'V') (h : c ∈ (value.map (textConstant name)).toList) :
      c.name.toList.head? ≠ some 'V' := by
    rw [Option.mem_toList, Option.map_eq_some_iff] at h
    obtain ⟨text, -, rfl⟩ := h
    exact hname
  refine ⟨[textConstant "UUID" n.properties.uuid, textConstant "NODE_KIND" n.properties.kind] ++
    (n.properties.description.map (textConstant "DESCRIPTION")).toList ++
    (n.properties.comment.map (textConstant "COMMENT")).toList ++
    (n.properties.unit.map (textConstant "UNIT")).toList ++
    (n.properties.datatype.map (textConstant "DATATYPE")).toList ++ boundConstants n, rfl, ?_⟩
  intro c hc
  simp only [List.mem_append, List.mem_cons, List.not_mem_nil, or_false] at hc
  rcases hc with (((((rfl | rfl) | h) | h) | h) | h) | h
  · simp [textConstant]
  · simp [textConstant]
  · exact hoptional (by simp) h
  · exact hoptional (by simp) h
  · exact hoptional (by simp) h
  · exact hoptional (by simp) h
  · obtain ⟨⟨bound, raw⟩, -, hbound⟩ := List.mem_filterMap.mp h
    simp only [boundConstant?, Option.bind_eq_bind, Option.bind_eq_some_iff, Option.pure_def,
      Option.some.injEq] at hbound
    obtain ⟨_, -, _, -, rfl⟩ := hbound
    cases bound <;> simp [BoundKind.name]

theorem paths_structItem (isUnit : Bool) (depth : Nat) (parent : Option TypePath) (d : TypeDecl) :
    (structItem isUnit depth parent d).paths = [Text.Literal.quote d.path.text] := by
  obtain ⟨rest, hconstants, hrest⟩ := exists_constants_eq d.node
  have hline : (textConstant "VSS_PATH" d.node.path.text).OneLine :=
    oneLine_constants d.node (by rw [hconstants]; exact List.mem_cons_self)
  have hnone := filterMap_path?_of_head? fun c hc =>
    ⟨oneLine_constants d.node (by rw [hconstants]; exact List.mem_cons_of_mem _ hc), hrest c hc⟩
  change (Code.outlineOf ((constants d.node).map Constant.code)).filterMap Outline.path? = _
  rw [hconstants, List.map_cons, Code.outlineOf, Constant.code,
    Code.outline_line (StructItem.isPlain_constant hline) (by simp), List.singleton_append,
    List.filterMap_cons]
  simp only [textConstant]
  rw [path?_textConstant, hnone]
  rfl

end SignalTree.Source
