import SignalTree.Proofs.NoteLines

/-!
Written code as the rows of a text, which stand between its line feeds. A line of code takes
one row. Deeper inside, the same rows stand further right, and blank ones stay empty.
-/
namespace SignalTree

namespace Text

theorem stripPrefix?_append (start rest : List Char) :
    stripPrefix? start (start ++ rest) = some rest := stripPrefix?_eq_some.mpr rfl

theorem stripSuffix?_append (rest ending : List Char) :
    stripSuffix? ending (rest ++ ending) = some rest := stripSuffix?_eq_some.mpr rfl

theorem splitOnce?_append {sep : Char} {before : List Char} (h : sep ∉ before)
    (after : List Char) : splitOnce? sep (before ++ sep :: after) = some (before, after) :=
  splitOnce?_eq_some.mpr ⟨h, rfl⟩

end Text

namespace Source

/-- Code as it is written inside so many blocks. -/
def renderAt (indent : Nat) (cs : List Code) : String :=
  String.ofList ((Code.linesOf indent cs).flatMap Line.chars)

theorem renderAt_zero (cs : List Code) : renderAt 0 cs = render cs := rfl

def Line.row : Line → List Char
  | blank => []
  | text indent t => List.replicate (4 * indent) ' ' ++ t.toList

theorem Line.chars_eq (l : Line) : l.chars = l.row ++ ['\n'] := by
  cases l <;> rfl

theorem pieces_flatMap_chars_eq {ls : List Line} (h : ∀ l ∈ ls, l.OneLine) :
    Text.pieces '\n' (ls.flatMap Line.chars) = ls.map Line.row ++ [[]] := by
  induction ls with
  | nil => rfl
  | cons l ls ih =>
    obtain ⟨hl, hls⟩ := List.forall_mem_cons.mp h
    have hrow : '\n' ∉ l.row := by
      cases l with
      | blank => simp [Line.row]
      | text indent t =>
        have ht : '\n' ∉ t.toList := hl
        simpa [Line.row] using ht
    rw [List.flatMap_cons, Line.chars_eq, List.append_assoc, List.singleton_append,
      Text.pieces_append hrow, ih hls]
    rfl

def deepen (levels : Nat) (row : List Char) : List Char :=
  if row.isEmpty then [] else List.replicate (4 * levels) ' ' ++ row

/-- A text that takes a row, and one row only. -/
structure TakesRow (text : String) : Prop where
  ne_nil : text.toList ≠ []
  oneLine : '\n' ∉ text.toList

def EachTakesRow (cs : List Code) : Prop := ∀ t ∈ Code.texts cs, TakesRow t

theorem EachTakesRow.oneLine {cs : List Code} (h : EachTakesRow cs) (indent : Nat) :
    ∀ l ∈ Code.linesOf indent cs, l.OneLine := by
  intro l hl
  cases l with
  | blank => trivial
  | text i t =>
    have ht : t ∈ (Code.linesOf indent cs).filterMap Line.text? :=
      List.mem_filterMap.mpr ⟨_, hl, rfl⟩
    rw [Code.filterMap_text?_linesOf] at ht
    exact (h t ht).oneLine

theorem EachTakesRow.physicalLines {cs : List Code} (h : EachTakesRow cs) (indent : Nat) :
    physicalLines (renderAt indent cs) = (Code.linesOf indent cs).map Line.row ++ [[]] := by
  rw [Source.physicalLines, renderAt, String.toList_ofList, pieces_flatMap_chars_eq (h.oneLine _)]

theorem Line.row_shift {l : Line} (h : ∀ t ∈ l.text?, TakesRow t) (levels : Nat) :
    (l.shift levels).row = deepen levels l.row := by
  cases l with
  | blank => rfl
  | text indent t =>
    have hne := (h t rfl).ne_nil
    have hspaces : 4 * (indent + levels) = 4 * levels + 4 * indent := by omega
    have hempty : (List.replicate (4 * indent) ' ' ++ t.toList).isEmpty = false := by simp [hne]
    rw [Line.shift, Line.row, Line.row, deepen, hempty, hspaces, List.replicate_add,
      List.append_assoc]
    rfl

/-- Inside more blocks stand the same rows, each further right. -/
theorem EachTakesRow.physicalLines_renderAt {cs : List Code} (h : EachTakesRow cs)
    (levels : Nat) :
    Source.physicalLines (renderAt levels cs) =
      (Source.physicalLines (renderAt 0 cs)).map (deepen levels) := by
  have hshift : (Code.linesOf levels cs).map Line.row =
      ((Code.linesOf 0 cs).map Line.row).map (deepen levels) := by
    rw [← Nat.zero_add levels, Code.linesOf_add, Nat.zero_add, List.map_map, List.map_map]
    refine List.map_congr_left fun l hl => Line.row_shift (fun t ht => ?_) levels
    exact h t (List.mem_filterMap.mpr ⟨l, hl, ht⟩)
  rw [h.physicalLines, h.physicalLines, hshift, List.map_append, List.map_singleton]
  rfl

/-! What a reader of rows finds at the left margin. -/

def Code.margin : Code → List String
  | blank => []
  | line text => [text]
  | block opening _ closing => [opening, closing]

theorem filterMap_row_of_indented {α : Type} {read : List Char → Option α} (hnil : read [] = none)
    (hspace : ∀ row, read (' ' :: row) = none) (ls : List Line) :
    (ls.map (Line.shift 1)).filterMap (fun l => read l.row) = [] := by
  refine List.filterMap_eq_nil_iff.mpr fun l hl => ?_
  obtain ⟨l, -, rfl⟩ := List.mem_map.mp hl
  cases l with
  | blank => exact hnil
  | text indent t =>
    have hspaces : 4 * (indent + 1) = 4 * indent + 3 + 1 := by omega
    rw [Line.shift, Line.row, hspaces, List.replicate_succ, List.cons_append]
    exact hspace _

theorem EachTakesRow.filterMap_physicalLines {α : Type} {cs : List Code} (h : EachTakesRow cs)
    {read : List Char → Option α} (hnil : read [] = none)
    (hspace : ∀ row, read (' ' :: row) = none) :
    (Source.physicalLines (render cs)).filterMap read =
      (cs.flatMap Code.margin).filterMap fun t => read t.toList := by
  have hlines : (Code.linesOf 0 cs).filterMap (fun l => read l.row) =
      (cs.flatMap Code.margin).filterMap fun t => read t.toList := by
    clear h
    induction cs with
    | nil => rfl
    | cons c cs ih =>
      rw [Code.linesOf, List.filterMap_append, ih, List.flatMap_cons, List.filterMap_append]
      congr 1
      cases c with
      | blank => simp [Code.lines, Code.margin, Line.row, hnil]
      | line text => simp [Code.lines, Code.margin, Line.row, List.filterMap_cons]
      | block opening body closing =>
        have hbody : (Code.linesOf 1 body).filterMap (fun l => read l.row) = [] := by
          rw [← Nat.zero_add 1, Code.linesOf_add]
          exact filterMap_row_of_indented hnil hspace _
        have hlines : Code.lines 0 (.block opening body closing) =
            [.text 0 opening] ++ Code.linesOf 1 body ++ [.text 0 closing] := rfl
        have hmargin : Code.margin (.block opening body closing) = [opening] ++ [closing] := rfl
        rw [hlines, hmargin, List.filterMap_append, List.filterMap_append, hbody,
          List.append_nil, List.filterMap_append]
        rfl
  rw [← renderAt_zero, h.physicalLines, List.filterMap_append, List.filterMap_map]
  simp [hnil, ← hlines]

/-! The rows of items, whatever the names in them, as long as these break no line. -/

section

variable {cs xs ys : List Code}

theorem eachTakesRow_nil : EachTakesRow [] := List.forall_mem_nil _

@[simp] theorem eachTakesRow_append :
    EachTakesRow (xs ++ ys) ↔ EachTakesRow xs ∧ EachTakesRow ys := by
  rw [EachTakesRow, Code.texts_append, List.forall_mem_append, EachTakesRow, EachTakesRow]

@[simp] theorem eachTakesRow_blank_cons : EachTakesRow (.blank :: cs) ↔ EachTakesRow cs := by
  rw [EachTakesRow, Code.texts_blank_cons, EachTakesRow]

@[simp] theorem eachTakesRow_line_cons {text : String} :
    EachTakesRow (.line text :: cs) ↔ TakesRow text ∧ EachTakesRow cs := by
  rw [EachTakesRow, Code.texts_line_cons, List.forall_mem_cons, EachTakesRow]

@[simp] theorem eachTakesRow_block_cons {opening closing : String} {body : List Code} :
    EachTakesRow (.block opening body closing :: cs) ↔
      TakesRow opening ∧ EachTakesRow body ∧ TakesRow closing ∧ EachTakesRow cs := by
  rw [EachTakesRow, Code.texts_block_cons, List.forall_mem_append, List.forall_mem_cons,
    List.forall_mem_cons, and_assoc, EachTakesRow, EachTakesRow]

theorem takesRow_closeBrace : TakesRow closeBrace := ⟨by simp [closeBrace], by simp [closeBrace]⟩

@[simp] theorem eachTakesRow_braces_cons {head : String} {body : List Code} :
    EachTakesRow (braces head body :: cs) ↔
      '\n' ∉ head.toList ∧ EachTakesRow body ∧ EachTakesRow cs := by
  have hopening : TakesRow (head ++ openBrace) ↔ '\n' ∉ head.toList :=
    ⟨fun h => by simpa [openBrace] using h.oneLine,
      fun h => ⟨by simp [openBrace], by simpa [openBrace] using h⟩⟩
  rw [braces, eachTakesRow_block_cons, hopening, and_iff_right takesRow_closeBrace]

theorem eachTakesRow_map_line {α : Type} {f : α → String} {xs : List α}
    (h : ∀ x ∈ xs, TakesRow (f x)) : EachTakesRow (xs.map fun x => .line (f x)) := by
  rw [EachTakesRow, Code.texts_map_line]
  exact List.forall_mem_map.mpr h

theorem eachTakesRow_spaced {parts : List (List Code)} :
    EachTakesRow (Code.spaced parts) ↔ ∀ part ∈ parts, EachTakesRow part := by
  simp only [EachTakesRow, Code.texts_spaced, List.mem_flatMap]
  grind

end

theorem takesRow_docText {text : String} (h : '\n' ∉ text.toList) : TakesRow (docText text) where
  ne_nil := by
    obtain ⟨mark, ⟨rest, rfl⟩, -, htext⟩ := toList_docText text
    simp [htext]
  oneLine := newline_not_mem_docText h

namespace TypePath

def IsOneLine (p : TypePath) : Prop := ∀ name ∈ p.modules ++ [p.name], '\n' ∉ name.toList

theorem isOneLine_of {modules : List String} {name : String} (hmodules : ∀ m ∈ modules, IsName m)
    (hname : '\n' ∉ name.toList) : (TypePath.mk modules name).IsOneLine := by
  intro n hn
  rcases List.mem_append.mp hn with hn | hn
  · exact (hmodules n hn).not_mem (by decide)
  · rwa [List.mem_singleton.mp hn]

theorem IsOneLine.newline_not_mem {p : TypePath} (h : p.IsOneLine) : '\n' ∉ p.text.toList := by
  unfold IsOneLine at h
  rw [text, String.toList_intercalate]
  generalize p.modules ++ [p.name] = names at h
  induction names with
  | nil => simp
  | cons name rest ih =>
    obtain ⟨hname, hrest⟩ := List.forall_mem_cons.mp h
    cases rest with
    | nil => simpa using hname
    | cons next rest => simpa [List.intercalate_cons_cons, hname] using ih hrest

end TypePath

namespace StructItem

structure IsOneLine (s : StructItem) : Prop where
  docs : ∀ text ∈ s.docs, '\n' ∉ text.toList
  name : '\n' ∉ s.name.toList
  fields : ∀ f ∈ s.fields, '\n' ∉ f.name.toList ∧ f.type.IsOneLine
  constants : ∀ c ∈ s.constants, c.OneLine
  parent : ∀ p ∈ s.parent, p.IsOneLine

variable {s : StructItem}

theorem newline_not_mem_traitPath (s : StructItem) {trait : String} (h : IsName trait) :
    '\n' ∉ (s.traitPath trait).text.toList := (s.isNamed_traitPath h).newline_not_mem

theorem takesRow_constant {c : Constant} (h : c.OneLine) :
    TakesRow ("pub const " ++ c.name ++ ": " ++ c.type ++ " = " ++ c.literal ++ ";") :=
  ⟨by simp, (isPlain_constant h).oneLine⟩

theorem eachTakesRow_constants (h : ∀ c ∈ s.constants, c.OneLine) :
    EachTakesRow (s.constants.map Constant.code) :=
  eachTakesRow_map_line fun c hc => takesRow_constant (h c hc)

theorem eachTakesRow_childList (h : s.IsOneLine) : EachTakesRow [s.childList] := by
  have htrait := s.newline_not_mem_traitPath isName_nodeTrait
  unfold childList
  split
  · simpa using ⟨⟨by simp, by simp⟩, eachTakesRow_nil⟩
  · refine eachTakesRow_block_cons.mpr ⟨⟨by simp, by simp⟩, ?_, ⟨by simp, by simp⟩,
      eachTakesRow_nil⟩
    refine eachTakesRow_map_line fun f hf => ⟨by simp, ?_⟩
    simpa using ⟨(h.fields f hf).1, htrait⟩

theorem eachTakesRow_docs (h : s.IsOneLine) : EachTakesRow (s.docs.map docLine) := by
  rw [show docLine = fun text => .line (docText text) from funext docLine_eq]
  exact eachTakesRow_map_line fun text htext => takesRow_docText (h.docs text htext)

theorem eachTakesRow_declaration (h : s.IsOneLine) (hcs : EachTakesRow cs) :
    EachTakesRow (s.declaration :: cs) := by
  refine eachTakesRow_braces_cons.mpr ⟨by simpa using h.name, ?_, hcs⟩
  refine eachTakesRow_line_cons.mpr ⟨⟨by simp, ?_⟩, ?_⟩
  · simpa [valueField] using s.value.newline_not_mem_rustType
  · refine eachTakesRow_map_line fun f hf => ⟨by simp, ?_⟩
    simpa using ⟨(h.fields f hf).1, (h.fields f hf).2.newline_not_mem⟩

theorem eachTakesRow_constantImpl (h : s.IsOneLine) (hcs : EachTakesRow cs) :
    EachTakesRow (s.constantImpl :: cs) :=
  eachTakesRow_braces_cons.mpr ⟨by simpa using h.name, eachTakesRow_constants h.constants, hcs⟩

theorem eachTakesRow_defaultImpl (h : s.IsOneLine) (hcs : EachTakesRow cs) :
    EachTakesRow (s.defaultImpl :: cs) := by
  have hvalues : EachTakesRow (.line (valueField ++ ": " ++ s.value.defaultLiteral ++ ",") ::
      s.fields.map fun f => .line (f.name ++ ": Default::default(),")) := by
    refine eachTakesRow_line_cons.mpr ⟨⟨by simp, ?_⟩, ?_⟩
    · simpa [valueField] using s.value.newline_not_mem_defaultLiteral
    · exact eachTakesRow_map_line fun f hf => ⟨by simp, by simpa using (h.fields f hf).1⟩
  refine eachTakesRow_braces_cons.mpr ⟨by simpa using h.name, ?_, hcs⟩
  refine eachTakesRow_braces_cons.mpr ⟨by simp, ?_, eachTakesRow_nil⟩
  exact eachTakesRow_braces_cons.mpr ⟨by simp, hvalues, eachTakesRow_nil⟩

theorem eachTakesRow_nodeImpl (h : s.IsOneLine) (hcs : EachTakesRow cs) :
    EachTakesRow (s.nodeImpl :: cs) := by
  have htrait := s.newline_not_mem_traitPath isName_nodeTrait
  refine eachTakesRow_braces_cons.mpr ⟨by simpa using ⟨htrait, h.name⟩, ?_, hcs⟩
  refine eachTakesRow_braces_cons.mpr ⟨by simp, ?_, eachTakesRow_blank_cons.mpr ?_⟩
  · exact eachTakesRow_line_cons.mpr ⟨⟨by simp, by simp⟩, eachTakesRow_nil⟩
  · exact eachTakesRow_braces_cons.mpr
      ⟨by simpa using htrait, eachTakesRow_childList h, eachTakesRow_nil⟩

theorem eachTakesRow_parentImpl (h : s.IsOneLine) {parent : TypePath}
    (hp : s.parent = some parent) : EachTakesRow [s.parentImpl parent] := by
  have htrait := s.newline_not_mem_traitPath isName_childTrait
  refine eachTakesRow_braces_cons.mpr ⟨by simpa using ⟨htrait, h.name⟩, ?_, eachTakesRow_nil⟩
  refine eachTakesRow_line_cons.mpr ⟨⟨by simp, ?_⟩, eachTakesRow_nil⟩
  simpa using (h.parent parent hp).newline_not_mem

theorem eachTakesRow_code (h : s.IsOneLine) : EachTakesRow s.code := by
  rw [code, eachTakesRow_append, eachTakesRow_append]
  refine ⟨⟨eachTakesRow_docs h, eachTakesRow_line_cons.mpr ⟨⟨by simp, by simp⟩, ?_⟩⟩, ?_⟩
  · refine eachTakesRow_declaration h (eachTakesRow_blank_cons.mpr ?_)
    refine eachTakesRow_constantImpl h (eachTakesRow_blank_cons.mpr ?_)
    refine eachTakesRow_defaultImpl h (eachTakesRow_blank_cons.mpr ?_)
    exact eachTakesRow_nodeImpl h eachTakesRow_nil
  · split
    · next parent hp => exact eachTakesRow_blank_cons.mpr (eachTakesRow_parentImpl h hp)
    · exact eachTakesRow_nil

end StructItem

namespace Item

mutual

def IsOneLine : Item → Prop
  | struct s => s.IsOneLine
  | module name items => '\n' ∉ name.toList ∧ EachOneLine items

def EachOneLine : List Item → Prop
  | [] => True
  | item :: rest => item.IsOneLine ∧ EachOneLine rest

end

theorem eachOneLine_append {xs ys : List Item} :
    EachOneLine (xs ++ ys) ↔ EachOneLine xs ∧ EachOneLine ys := by
  induction xs with
  | nil => simp [EachOneLine]
  | cons x xs ih => simp [EachOneLine, ih, and_assoc]

mutual

theorem eachTakesRow_code {i : Item} (h : i.IsOneLine) : EachTakesRow i.code := by
  cases i with
  | struct s => exact StructItem.eachTakesRow_code h
  | module name items =>
    have hitems := eachTakesRow_codesOf h.2
    exact eachTakesRow_braces_cons.mpr
      ⟨by simpa using h.1, eachTakesRow_spaced.mpr hitems, eachTakesRow_nil⟩

theorem eachTakesRow_codesOf {items : List Item} (h : EachOneLine items) :
    ∀ part ∈ codesOf items, EachTakesRow part := by
  cases items with
  | nil => exact List.forall_mem_nil _
  | cons item rest =>
    exact List.forall_mem_cons.mpr ⟨eachTakesRow_code h.1, eachTakesRow_codesOf h.2⟩

end

end Item

end Source

def TypeDecl.NamesOneLine (d : TypeDecl) : Prop :=
  ∀ e ∈ d.types, '\n' ∉ e.name.toList ∧ ∀ c ∈ e.children, '\n' ∉ c.name.toList

theorem TypeDecl.NamesOneLine.of_mem_nested {d e : TypeDecl} (hd : d.NamesOneLine)
    (he : e ∈ d.nested) : e.NamesOneLine :=
  fun t ht => hd t (mem_types.mpr (.inr ⟨e, he, ht⟩))

/-- No type name that a unit mentions breaks a line. -/
structure TypeUnit.NamesOneLine (u : TypeUnit) : Prop where
  decl : u.decl.NamesOneLine
  parent : ∀ r ∈ u.parent, '\n' ∉ r.unit.toList ∧ ∀ n ∈ r.nested, '\n' ∉ n.toList

namespace Source

theorem isOneLine_childType {isUnit : Bool} {depth : Nat} {owner : String} {c : ChildRef}
    (hc : '\n' ∉ c.name.toList) : (childType isUnit depth owner c).IsOneLine := by
  unfold childType
  split
  · refine TypePath.isOneLine_of (fun m hm => ?_) hc
    rcases List.mem_append.mp hm with hm | hm
    · rw [List.eq_of_mem_replicate hm]
      exact TypePath.isName_upward
    · rw [List.mem_singleton.mp hm]
      exact isName_moduleName c.name
  · refine TypePath.isOneLine_of (fun m hm => ?_) hc
    cases isUnit with
    | true => simp at hm
    | false =>
      rw [List.mem_singleton.mp hm]
      exact isName_moduleName owner

theorem isOneLine_parentPath {r : ParentRef} (hunit : '\n' ∉ r.unit.toList)
    (hnested : ∀ n ∈ r.nested, '\n' ∉ n.toList) : (parentPath r).IsOneLine := by
  have htype : '\n' ∉ r.typeName.toList := by
    rw [ParentRef.typeName]
    cases hlast : r.nested.getLast? with
    | none => exact hunit
    | some n => exact hnested n (List.mem_of_getLast? hlast)
  refine TypePath.isOneLine_of (fun m hm => ?_) htype
  rcases List.mem_cons.mp hm with rfl | hm
  · exact TypePath.isName_upward
  rcases List.mem_cons.mp hm with rfl | hm
  · exact isName_moduleName r.unit
  · obtain ⟨n, -, rfl⟩ := List.mem_map.mp hm
    exact isName_moduleName n

theorem isOneLine_structItem {isUnit : Bool} {depth : Nat} {parent : Option TypePath}
    {d : TypeDecl} (hd : d.NamesOneLine) (hparent : ∀ p ∈ parent, p.IsOneLine) :
    (structItem isUnit depth parent d).IsOneLine where
  docs := newline_not_mem_docs d
  name := (hd d (TypeDecl.self_mem_types d)).1
  fields := by
    intro f hf
    obtain ⟨c, hc, rfl⟩ := List.mem_map.mp hf
    dsimp only
    exact ⟨(isName_fieldName c.path).not_mem (by decide),
      isOneLine_childType ((hd d (TypeDecl.self_mem_types d)).2 c hc)⟩
  constants := fun _ hc => oneLine_constants d.node hc
  parent := hparent

mutual

theorem eachOneLine_nestedItems (depth : Nat) {parent : TypePath} (d : TypeDecl)
    (hd : d.NamesOneLine) (hparent : parent.IsOneLine) :
    Item.EachOneLine (nestedItems depth parent d) := by
  match d with
  | ⟨name, node, children, nested, implicit⟩ =>
    have hname := (hd _ (TypeDecl.self_mem_types _)).1
    rw [nestedItems]
    refine ⟨isOneLine_structItem hd (by simpa using hparent), ?_⟩
    split
    · trivial
    · refine ⟨⟨(isName_moduleName name).not_mem (by decide), ?_⟩, trivial⟩
      refine eachOneLine_nestedItemsOf (depth + 1) nested (fun e he => hd.of_mem_nested he) ?_
      exact TypePath.isOneLine_of (by simpa using TypePath.isName_upward) hname

theorem eachOneLine_nestedItemsOf (depth : Nat) {parent : TypePath} (ds : List TypeDecl)
    (hds : ∀ d ∈ ds, d.NamesOneLine) (hparent : parent.IsOneLine) :
    Item.EachOneLine (nestedItemsOf depth parent ds) := by
  match ds with
  | [] => trivial
  | d :: rest =>
    obtain ⟨hd, hrest⟩ := List.forall_mem_cons.mp hds
    rw [nestedItemsOf]
    exact Item.eachOneLine_append.mpr ⟨eachOneLine_nestedItems depth d hd hparent,
      eachOneLine_nestedItemsOf depth rest hrest hparent⟩

end

theorem eachOneLine_unitItems {u : TypeUnit} (hu : u.NamesOneLine) :
    Item.EachOneLine (unitItems u) := by
  refine ⟨isOneLine_structItem hu.decl fun p hp => ?_, ?_⟩
  · obtain ⟨r, hr, rfl⟩ := Option.map_eq_some_iff.mp hp
    exact isOneLine_parentPath (hu.parent r hr).1 (hu.parent r hr).2
  · refine eachOneLine_nestedItemsOf 1 _ (fun e he => hu.decl.of_mem_nested he) ?_
    exact TypePath.isOneLine_of (List.forall_mem_nil _)
      (hu.decl _ (TypeDecl.self_mem_types _)).1

end Source

end SignalTree
