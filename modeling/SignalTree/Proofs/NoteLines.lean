import SignalTree.Definition.Format
import SignalTree.Proofs.ItemText
import SignalTree.Proofs.ModuleTree
import SignalTree.Proofs.UnitNames
import SignalTree.Settings.Basic

/-!
The lines of generated files that repeat what definitions say: the header with the path of a
unit, and the documentation of its types. All other lines are code.
-/
namespace SignalTree

namespace Text

theorem pieces_append_of_not_mem {sep : Char} {before cs first : List Char}
    {more : List (List Char)} (h : sep ∉ before) (hcs : pieces sep cs = first :: more) :
    pieces sep (before ++ cs) = (before ++ first) :: more := by
  induction before with
  | nil => exact hcs
  | cons c before ih =>
    obtain ⟨hc, hbefore⟩ : sep ≠ c ∧ sep ∉ before := by simpa using h
    rw [List.cons_append, pieces, if_neg hc.symm, ih hbefore]
    rfl

end Text

namespace Source

/-! Lines as they stand in a file. -/

/-- A line with spaces before some text. -/
def IsIndented (text line : List Char) : Prop := ∃ n, line = List.replicate n ' ' ++ text

theorem IsIndented.isComment_iff {text line : List Char} (h : IsIndented text line) :
    IsComment line ↔ IsComment text := by
  obtain ⟨n, rfl⟩ := h
  rw [IsComment, IsComment, Text.trimStart_of_blank fun c hc => by
    rw [List.eq_of_mem_replicate hc]
    exact Text.isBlank_space]

theorem IsIndented.return_mem_iff {text line : List Char} (h : IsIndented text line) :
    '\r' ∈ line ↔ '\r' ∈ text := by
  obtain ⟨n, rfl⟩ := h
  simp

theorem pieces_flatMap_chars {ls : List Line}
    (h : ∀ t ∈ ls.filterMap Line.text?, '\n' ∉ t.toList) :
    (∀ line ∈ Text.pieces '\n' (ls.flatMap Line.chars),
      line = [] ∨ ∃ t ∈ ls.filterMap Line.text?, IsIndented t.toList line) ∧
    ∀ t ∈ ls.filterMap Line.text?,
      ∃ line ∈ Text.pieces '\n' (ls.flatMap Line.chars), IsIndented t.toList line := by
  induction ls with
  | nil => simp [Text.pieces]
  | cons l ls ih =>
    cases l with
    | blank =>
      obtain ⟨hlines, htexts⟩ := ih h
      have hpieces : Text.pieces '\n' ((Line.blank :: ls).flatMap Line.chars) =
          [] :: Text.pieces '\n' (ls.flatMap Line.chars) := by
        simp [Line.chars, Text.pieces]
      rw [hpieces]
      refine ⟨fun line hline => ?_, fun t ht => ?_⟩
      · rcases List.mem_cons.mp hline with rfl | hline
        · exact .inl rfl
        · exact hlines line hline
      · obtain ⟨line, hline, hindented⟩ := htexts t ht
        exact ⟨line, List.mem_cons_of_mem _ hline, hindented⟩
    | text indent t =>
      obtain ⟨ht, hrest⟩ := List.forall_mem_cons.mp h
      obtain ⟨hlines, htexts⟩ := ih hrest
      have hone : '\n' ∉ List.replicate (4 * indent) ' ' ++ t.toList := by simp [ht]
      have hpieces : Text.pieces '\n' ((Line.text indent t :: ls).flatMap Line.chars) =
          (List.replicate (4 * indent) ' ' ++ t.toList) ::
            Text.pieces '\n' (ls.flatMap Line.chars) := by
        rw [List.flatMap_cons, Line.chars, List.append_assoc, List.singleton_append,
          Text.pieces_append_cons, Text.pieces_of_not_mem hone, List.singleton_append]
      rw [hpieces]
      refine ⟨fun line hline => ?_, fun s hs => ?_⟩
      · rcases List.mem_cons.mp hline with rfl | hline
        · exact .inr ⟨t, List.mem_cons_self, _, rfl⟩
        · refine (hlines line hline).imp_right ?_
          rintro ⟨s, hs, hindented⟩
          exact ⟨s, List.mem_cons_of_mem _ hs, hindented⟩
      · rcases List.mem_cons.mp hs with rfl | hs
        · exact ⟨_, List.mem_cons_self, _, rfl⟩
        · obtain ⟨line, hline, hindented⟩ := htexts s hs
          exact ⟨line, List.mem_cons_of_mem _ hline, hindented⟩

theorem physicalLines_render {cs : List Code} (h : ∀ t ∈ Code.texts cs, '\n' ∉ t.toList) :
    (∀ line ∈ physicalLines (render cs),
      line = [] ∨ ∃ t ∈ Code.texts cs, IsIndented t.toList line) ∧
    ∀ t ∈ Code.texts cs, ∃ line ∈ physicalLines (render cs), IsIndented t.toList line := by
  rw [physicalLines, render, String.toList_ofList]
  exact pieces_flatMap_chars h

/-! Notes. -/

theorem toList_docText (text : String) : ∃ mark, ['/', '/'] <+: mark ∧
    (∀ c ∈ mark, c = '/' ∨ c = ' ') ∧
    (docText text).toList = mark ++ Text.trimEnd text.toList := by
  unfold docText
  split
  · next h =>
    rw [List.isEmpty_iff.mp h]
    exact ⟨['/', '/', '/'], by decide, by simp, by simp⟩
  · exact ⟨['/', '/', '/', ' '], by decide, by simp, by simp⟩

theorem isComment_docText (text : String) : IsComment (docText text).toList := by
  obtain ⟨mark, ⟨rest, rfl⟩, -, htext⟩ := toList_docText text
  have hslash : Text.isBlank '/' = false := by decide
  rw [IsComment, htext, Text.trimStart_of_head? (by simpa using hslash)]
  simp

theorem return_mem_docText_iff (text : String) :
    '\r' ∈ (docText text).toList ↔ '\r' ∈ Text.trimEnd text.toList := by
  obtain ⟨mark, -, hmark, htext⟩ := toList_docText text
  have hnone : '\r' ∉ mark := fun h => (hmark _ h).elim (by decide) (by decide)
  simp [htext, hnone]

theorem newline_not_mem_docText {text : String} (h : '\n' ∉ text.toList) :
    '\n' ∉ (docText text).toList := by
  obtain ⟨mark, -, hmark, htext⟩ := toList_docText text
  have hnone : '\n' ∉ mark := fun h => (hmark _ h).elim (by decide) (by decide)
  simpa [htext, hnone] using fun hmem => h (Text.mem_trimEnd hmem)

/-- The path of a unit in the header of its file, and the descriptions and comments of its
types. -/
def noteLines (u : TypeUnit) : List (List Char) :=
  physicalLines (unitNote u) ++
    u.types.flatMap fun d => (nodeDocs d.node.properties).map fun text => (docText text).toList

/-- What a unit has to say for its notes to stay comments: nothing after a line feed in the path,
and no carriage return. -/
structure KeepsComments (u : TypeUnit) : Prop where
  header : ∀ line ∈ (Text.pieces '\n' (u.decl.path.text.toList ++ ['`'])).tail, IsComment line
  path_return : '\r' ∉ u.decl.path.text.toList
  docs_return : ∀ d ∈ u.types, ∀ text ∈ nodeDocs d.node.properties,
    '\r' ∉ Text.trimEnd text.toList

theorem forall_header_iff (u : TypeUnit) :
    (∀ line ∈ physicalLines (unitNote u), IsComment line ∧ '\r' ∉ line) ↔
      (∀ line ∈ (Text.pieces '\n' (u.decl.path.text.toList ++ ['`'])).tail, IsComment line) ∧
        '\r' ∉ u.decl.path.text.toList := by
  have hnote : (unitNote u).toList = "//! `".toList ++ (u.decl.path.text.toList ++ ['`']) := by
    simp [unitNote]
  have hreturn : (∀ line ∈ physicalLines (unitNote u), '\r' ∉ line) ↔
      '\r' ∉ u.decl.path.text.toList := by
    have hmem := Text.mem_pieces_iff (show '\r' ≠ '\n' by decide) (unitNote u).toList
    rw [physicalLines, ← not_iff_not, not_not]
    simpa [hnote] using hmem
  have hcomment : (∀ line ∈ physicalLines (unitNote u), IsComment line) ↔
      ∀ line ∈ (Text.pieces '\n' (u.decl.path.text.toList ++ ['`'])).tail, IsComment line := by
    obtain ⟨first, more, hpieces⟩ := List.exists_cons_of_ne_nil
      (Text.pieces_ne_nil '\n' (u.decl.path.text.toList ++ ['`']))
    have hlines : Text.pieces '\n' ("//! `".toList ++ (u.decl.path.text.toList ++ ['`'])) =
        ("//! `".toList ++ first) :: more := Text.pieces_append_of_not_mem (by simp) hpieces
    have hfirst : IsComment ("//! `".toList ++ first) := by
      have hslash : Text.isBlank '/' = false := by decide
      rw [IsComment, Text.trimStart_of_head? (by simpa using hslash)]
      simp
    rw [physicalLines, hnote, hlines, hpieces, List.forall_mem_cons]
    exact and_iff_right hfirst
  rw [← hreturn, ← hcomment]
  exact forall₂_and

theorem forall_noteLines_iff (u : TypeUnit) :
    (∀ note ∈ noteLines u, IsComment note ∧ '\r' ∉ note) ↔ KeepsComments u := by
  have hdocs : (∀ note ∈ u.types.flatMap fun d =>
      (nodeDocs d.node.properties).map fun text => (docText text).toList,
        IsComment note ∧ '\r' ∉ note) ↔
      ∀ d ∈ u.types, ∀ text ∈ nodeDocs d.node.properties, '\r' ∉ Text.trimEnd text.toList := by
    simp only [List.mem_flatMap, List.mem_map, forall_exists_index, and_imp]
    constructor
    · intro h d hd text htext
      exact (return_mem_docText_iff text).not.mp (h _ d hd text htext rfl).2
    · rintro h _ d hd text htext rfl
      exact ⟨isComment_docText text, (return_mem_docText_iff text).not.mpr (h d hd text htext)⟩
  rw [noteLines, List.forall_mem_append, forall_header_iff, hdocs]
  exact ⟨fun ⟨⟨hheader, hpath⟩, hdocs⟩ => ⟨hheader, hpath, hdocs⟩,
    fun h => ⟨⟨h.header, h.path_return⟩, h.docs_return⟩⟩

theorem isCodeText_implicitNote : IsCodeText (docText implicitNote) := by
  have htext : docText implicitNote = "/// " ++ implicitNote := by decide +kernel
  rw [htext]
  exact .fixed (by simp [fixedTexts])

theorem texts_items {u : TypeUnit} (hu : u.IsNamed) :
    (∀ t ∈ Code.texts (Code.spaced (Item.codesOf (unitItems u))),
      (∃ d ∈ u.types, ∃ text ∈ nodeDocs d.node.properties, t = docText text) ∨ IsCodeText t) ∧
    ∀ d ∈ u.types, ∀ text ∈ nodeDocs d.node.properties,
      docText text ∈ Code.texts (Code.spaced (Item.codesOf (unitItems u))) := by
  have hstructs := map_structs_unitItems u
  have hconstants : ∀ s ∈ Item.structsOf (unitItems u), ∀ c ∈ s.constants, c.IsCode := by
    intro s hs c hc
    have hmem := List.mem_map_of_mem (f := fun s => (s.docs, s.constants)) hs
    rw [hstructs] at hmem
    obtain ⟨d, -, hd⟩ := List.mem_map.mp hmem
    obtain ⟨-, hd⟩ := Prod.mk.inj hd
    exact isCode_constants d.node (hd ▸ hc)
  rw [Code.texts_spaced]
  refine ⟨fun t ht => ?_, fun d hd text htext => ?_⟩
  · rcases Item.isDoc_or_isCodeText_of _ (eachWritable_unitItems hu) hconstants t ht with h | h
    · obtain ⟨s, hs, text, htext, rfl⟩ := h
      have hmem := List.mem_map_of_mem (f := fun s => (s.docs, s.constants)) hs
      rw [hstructs] at hmem
      obtain ⟨d, hd, heq⟩ := List.mem_map.mp hmem
      obtain ⟨hdocs, -⟩ := Prod.mk.inj heq
      rw [← hdocs, typeDocs] at htext
      rcases List.mem_append.mp htext with htext | htext
      · exact .inl ⟨d, hd, text, htext, rfl⟩
      · split at htext
        · rw [List.mem_singleton.mp htext]
          exact .inr isCodeText_implicitNote
        · exact absurd htext List.not_mem_nil
    · exact .inr h
  · have hmem := List.mem_map_of_mem (f := fun e => (typeDocs e, constants e.node)) hd
    rw [← hstructs] at hmem
    obtain ⟨s, hs, heq⟩ := List.mem_map.mp hmem
    obtain ⟨hdocs, -⟩ := Prod.mk.inj heq
    exact Item.docText_mem_texts_of _ hs (hdocs ▸ List.mem_append_left _ htext)

/-! Files. -/

/-- A line that holds code and nothing else. -/
def IsCodeLine (line : List Char) : Prop := ∃ t, IsCodeText t ∧ IsIndented t.toList line

theorem physicalLines_header (note body : String) :
    physicalLines (generatedNote ++ "\n" ++ note ++ "\n\n" ++ body) =
      generatedNote.toList :: physicalLines note ++ [] :: physicalLines body := by
  have htext : generatedNote ++ "\n" ++ note ++ "\n\n" ++ body =
      generatedNote ++ "\n" ++ (note ++ "\n" ++ ("" ++ "\n" ++ body)) := by
    apply String.toList_injective
    simp
  rw [htext, physicalLines_append, physicalLines_append, physicalLines_append,
    physicalLines_of_not_mem (show '\n' ∉ generatedNote.toList by decide +kernel),
    physicalLines_of_not_mem (show '\n' ∉ "".toList by simp)]
  simp

theorem isCodeLine_generatedNote : IsCodeLine generatedNote.toList :=
  ⟨generatedNote, .fixed (by simp [fixedTexts]), 0, rfl⟩

/-- The file of a unit has blank lines, its notes and code, and all of its notes. -/
theorem lines_fileOf {u : TypeUnit} (hu : u.IsNamed) :
    (∀ line ∈ physicalLines (fileOf u).contents,
      line = [] ∨ (∃ note ∈ noteLines u, IsIndented note line) ∨ IsCodeLine line) ∧
    ∀ note ∈ noteLines u, ∃ line ∈ physicalLines (fileOf u).contents, IsIndented note line := by
  obtain ⟨htexts, hdocs⟩ := texts_items hu
  have honeLine : ∀ t ∈ Code.texts (Code.spaced (Item.codesOf (unitItems u))),
      '\n' ∉ t.toList := by
    intro t ht
    rcases htexts t ht with ⟨d, -, text, htext, rfl⟩ | ht
    · exact newline_not_mem_docText (newline_not_mem_nodeDocs _ htext)
    · exact ht.not_mem (.inl rfl)
  obtain ⟨hbody, hwritten⟩ := physicalLines_render honeLine
  have hcontents : physicalLines (fileOf u).contents = generatedNote.toList ::
      physicalLines (unitNote u) ++
        [] :: physicalLines (render (Code.spaced (Item.codesOf (unitItems u)))) := by
    rw [← physicalLines_header, ← render_header, ← render_append]
    rfl
  rw [hcontents]
  refine ⟨fun line hline => ?_, fun note hnote => ?_⟩
  · rcases List.mem_append.mp hline with hline | hline
    · rcases List.mem_cons.mp hline with rfl | hline
      · exact .inr (.inr isCodeLine_generatedNote)
      · exact .inr (.inl ⟨line, List.mem_append_left _ hline, 0, rfl⟩)
    · rcases List.mem_cons.mp hline with rfl | hline
      · exact .inl rfl
      · rcases hbody line hline with rfl | ⟨t, ht, hindented⟩
        · exact .inl rfl
        · rcases htexts t ht with ⟨d, hd, text, htext, rfl⟩ | hcode
          · refine .inr (.inl ⟨_, List.mem_append_right _ ?_, hindented⟩)
            exact List.mem_flatMap.mpr ⟨d, hd, List.mem_map_of_mem htext⟩
          · exact .inr (.inr ⟨t, hcode, hindented⟩)
  · rcases List.mem_append.mp hnote with hnote | hnote
    · exact ⟨note, List.mem_append_left _ (List.mem_cons_of_mem _ hnote), 0, rfl⟩
    · obtain ⟨d, hd, hnote⟩ := List.mem_flatMap.mp hnote
      obtain ⟨text, htext, rfl⟩ := List.mem_map.mp hnote
      obtain ⟨line, hline, hindented⟩ := hwritten _ (hdocs d hd text htext)
      exact ⟨line, List.mem_append_right _ (List.mem_cons_of_mem _ hline), hindented⟩

theorem forall_lines_iff {u : TypeUnit} (hu : u.IsNamed) :
    (∀ line ∈ physicalLines (fileOf u).contents, ∀ note ∈ noteLines u, IsIndented note line →
      IsComment line ∧ '\r' ∉ line) ↔ KeepsComments u := by
  rw [← forall_noteLines_iff]
  constructor
  · intro h note hnote
    obtain ⟨line, hline, hindented⟩ := (lines_fileOf hu).2 note hnote
    obtain ⟨hcomment, hreturn⟩ := h line hline note hnote hindented
    exact ⟨hindented.isComment_iff.mp hcomment, hindented.return_mem_iff.not.mp hreturn⟩
  · intro h line _ note hnote hindented
    obtain ⟨hcomment, hreturn⟩ := h note hnote
    exact ⟨hindented.isComment_iff.mpr hcomment, hindented.return_mem_iff.not.mpr hreturn⟩

theorem keepsComments_of_not_mem {u : TypeUnit} (hnewline : '\n' ∉ u.decl.path.text.toList)
    (hpath : '\r' ∉ u.decl.path.text.toList)
    (hdocs : ∀ d ∈ u.types, ∀ text ∈ nodeDocs d.node.properties, '\r' ∉ text.toList) :
    KeepsComments u where
  header := by
    rw [Text.pieces_of_not_mem (by simpa using hnewline)]
    simp
  path_return := hpath
  docs_return d hd text htext hmem := hdocs d hd text htext (Text.mem_trimEnd hmem)

theorem allCode_paragraph {cs : List Code} (h : AllCode cs) : AllCode (paragraph cs) := by
  unfold paragraph
  split
  · exact .nil
  · exact h.append (.blank .nil)

theorem allCode_indexBody {names : List String} (h : ∀ n ∈ names, IsTypeName n) :
    AllCode (indexBody names) := by
  have hsubmodule : ∀ n ∈ names, IsCodeText ("pub mod " ++ moduleName n ++ ";") := fun n _ =>
    (IsCodeText.fixed_append (by simp [fixedTexts]) (.name (isName_moduleName n))).append_fixed
      (by simp [fixedTexts])
  have hexport : ∀ n ∈ names, IsCodeText ("pub use " ++ (exportPath n).text ++ ";") := fun n hn =>
    (IsCodeText.fixed_append (by simp [fixedTexts]) (.path
      ⟨by simpa [exportPath] using isName_moduleName n, (h n hn).isName⟩)).append_fixed
      (by simp [fixedTexts])
  have htraits : AllCode (nodeTraitCode ++ .blank :: childTraitCode) := by
    have hnode : IsCodeText nodeTrait := .name StructItem.isName_nodeTrait
    have hchild : IsCodeText childTrait := .name StructItem.isName_childTrait
    have hchildren : IsCodeText ("fn children(&self) -> Vec<&dyn " ++ nodeTrait ++ ">;") :=
      (IsCodeText.fixed_append (by simp [fixedTexts]) hnode).append_fixed (by simp [fixedTexts])
    have hparent : IsCodeText ("type Parent: " ++ nodeTrait ++ ";") :=
      (IsCodeText.fixed_append (by simp [fixedTexts]) hnode).append_fixed (by simp [fixedTexts])
    refine .append (.line (.fixed (by simp [fixedTexts])) (.braces
      (.fixed_append (by simp [fixedTexts]) hnode) (.line (.fixed (by simp [fixedTexts]))
        (.line (.fixed (by simp [fixedTexts])) (.blank (.line (.fixed (by simp [fixedTexts]))
          (.line hchildren .nil))))) .nil)) (.blank ?_)
    exact .line (.fixed (by simp [fixedTexts])) (.braces
      (.fixed_append (by simp [fixedTexts]) hchild) (.line hparent .nil) .nil)
  exact ((allCode_paragraph (.map_line hsubmodule)).append
    (allCode_paragraph (.map_line hexport))).append htraits

theorem lines_renderIndex {units : List TypeUnit} (hunits : ∀ u ∈ units, IsTypeName u.decl.name)
    {module : String} (hmodule : Settings.isModuleName module = true) :
    ∀ line ∈ physicalLines (renderIndex units module).contents, line = [] ∨ IsCodeLine line := by
  have hnames : ∀ n ∈ units.map (·.decl.name), IsTypeName n := List.forall_mem_map.mpr hunits
  have hnote : IsCodeText (indexNote module) :=
    (IsCodeText.fixed_append (by simp [fixedTexts])
      (.name (isName_of_isModuleName hmodule))).append_fixed (by simp [fixedTexts])
  have hbody := allCode_indexBody hnames
  have honeLine : ∀ t ∈ Code.texts (indexBody (units.map (·.decl.name))), '\n' ∉ t.toList :=
    fun t ht => (hbody t ht).not_mem (.inl rfl)
  have hcontents : physicalLines (renderIndex units module).contents = generatedNote.toList ::
      physicalLines (indexNote module) ++
        [] :: physicalLines (render (indexBody (units.map (·.decl.name)))) := by
    rw [← physicalLines_header, ← render_header, ← render_append, ← indexCode_eq]
    rfl
  rw [hcontents, physicalLines_of_not_mem (hnote.not_mem (.inl rfl))]
  intro line hline
  rcases List.mem_append.mp hline with hline | hline
  · simp only [List.mem_cons, List.not_mem_nil, or_false] at hline
    rcases hline with rfl | rfl
    · exact .inr isCodeLine_generatedNote
    · exact .inr ⟨_, hnote, 0, rfl⟩
  · rcases List.mem_cons.mp hline with rfl | hline
    · exact .inl rfl
    · rcases (physicalLines_render honeLine).1 line hline with rfl | ⟨t, ht, hindented⟩
      · exact .inl rfl
      · exact .inr ⟨t, hbody t ht, hindented⟩

end Source

namespace Registry

open Source

variable {r : Registry} {units : List TypeUnit} {module : String} {files : List SourceFile}

/-- What definitions say reaches the lines of generated files as notes, in literals and in names
and nowhere else. The lines of a note begin with two slashes and hold no carriage return, unless
a path or a text has an end of a line where it breaks the comment. -/
theorem lines_of_files (hu : r.units.result = .ok units)
    (hf : (renderModule units module).result = .ok files)
    (hmodule : Settings.isModuleName module = true) :
    ∀ f ∈ files,
      (f = renderIndex units module ∧
        ∀ line ∈ physicalLines f.contents, line = [] ∨ IsCodeLine line) ∨
      ∃ u ∈ units, f = fileOf u ∧
        (∀ line ∈ physicalLines f.contents,
          line = [] ∨ (∃ note ∈ noteLines u, IsIndented note line) ∨ IsCodeLine line) ∧
        (∀ note ∈ noteLines u, ∃ line ∈ physicalLines f.contents, IsIndented note line) ∧
        ((∀ line ∈ physicalLines f.contents, ∀ note ∈ noteLines u, IsIndented note line →
          IsComment line ∧ '\r' ∉ line) ↔ KeepsComments u) := by
  have hnamed : ∀ u ∈ units, u.IsNamed := fun u hm => isNamed_of_mem_units hu hm
  intro f hfile
  rw [(renderModule_eq_ok hf).1] at hfile
  rcases List.mem_append.mp hfile with hfile | hfile
  · obtain ⟨u, hm, rfl⟩ := List.mem_map.mp hfile
    obtain ⟨hlines, hnotes⟩ := lines_fileOf (hnamed u hm)
    exact .inr ⟨u, hm, rfl, hlines, hnotes, forall_lines_iff (hnamed u hm)⟩
  · rw [List.mem_singleton.mp hfile]
    refine .inl ⟨rfl, lines_renderIndex (fun u hm => ?_) hmodule⟩
    exact (hnamed u hm).types _ (TypeDecl.self_mem_types _)

def notedSample : Registry := .ofNodes [
  ⟨.ofText "Vehicle", (Properties.new "" "branch").withDescription "All signals.\r\nOf a vehicle."⟩,
  ⟨.ofText "Vehicle.Speed", (Properties.new "" "sensor").withComment "On the road.\n\nNot in it."⟩]

theorem lines_of_notedSample : ∃ units files, notedSample.units.result = .ok units ∧
    (renderModule units "vss").result = .ok files ∧ ∀ f ∈ files, ∀ line ∈ physicalLines f.contents,
      line = [] ∨ IsCodeLine line ∨ IsComment line ∧ '\r' ∉ line := by
  have hok : notedSample.units.result.toOption.any (fun units =>
      (renderModule units "vss").result.isOk && units.all fun u =>
        !u.decl.path.text.toList.contains '\n' && !u.decl.path.text.toList.contains '\r' &&
          u.types.all fun d => (nodeDocs d.node.properties).all fun text =>
            !text.toList.contains '\r') = true := by
    decide +kernel
  obtain ⟨units, files, hu, hf, hclean⟩ := exists_rendered hok
  refine ⟨units, files, hu, hf, fun f hfile line hline => ?_⟩
  rcases lines_of_files hu hf (by decide +kernel) f hfile with ⟨-, hlines⟩ | h
  · exact (hlines line hline).imp_right .inl
  · obtain ⟨u, hm, -, hlines, -, hkeeps⟩ := h
    have hclean := List.all_eq_true.mp hclean u hm
    simp only [Bool.and_eq_true, Bool.not_eq_true', List.all_eq_true, List.contains_eq_mem,
      decide_eq_false_iff_not] at hclean
    obtain ⟨⟨hnewline, hreturn⟩, hdocs⟩ := hclean
    have hquiet := hkeeps.mpr (keepsComments_of_not_mem hnewline hreturn hdocs)
    rcases hlines line hline with hblank | ⟨note, hnote, hindented⟩ | hcode
    · exact .inl hblank
    · exact .inr (.inr (hquiet line hline note hnote hindented))
    · exact .inr (.inl hcode)

def brokenJson : String :=
  "\x7b\"Vehicle\": \x7b\"type\": \"branch\", \"description\": \"a\\rb\", " ++
    "\"children\": \x7b\"A\\nB\": \x7b\"type\": \"sensor\"\x7d\x7d\x7d\x7d"

def brokenRecords : List Record := [
  ⟨.ofText "Vehicle", "", "branch", "a\rb", "", "", "", "", ""⟩,
  ⟨.ofText "Vehicle.A\nB", "", "sensor", "", "", "", "", "", ""⟩]

theorem read_brokenJson : Format.json.read brokenJson = .ok brokenRecords := by
  have hread : Json.read? brokenJson = some (.object [("Vehicle", .object [
      ("type", .string "branch"), ("description", .string "a\rb"),
      ("children", .object [("A\nB", .object [("type", .string "sensor")])])])]) := by
    cbv
  change Definition.Nested.read Attribute.all brokenJson = _
  rw [Definition.Nested.read, hread]
  rfl

/-- A name that breaks the header leaves the comment, and a description keeps its carriage
return. Both are rendered. -/
theorem notes_of_brokenJson : ∃ records units files,
    Format.json.read brokenJson = .ok records ∧
    (ofNodes (records.map Record.resolve)).units.result = .ok units ∧
    (renderModule units "vss").result = .ok files ∧
    (∃ u ∈ units, fileOf u ∈ files ∧ ∃ line ∈ physicalLines (fileOf u).contents,
      ∃ note ∈ noteLines u, IsIndented note line ∧ ¬ IsComment line) ∧
    ∃ u ∈ units, fileOf u ∈ files ∧ ∃ line ∈ physicalLines (fileOf u).contents,
      ∃ note ∈ noteLines u, IsIndented note line ∧ '\r' ∈ line := by
  have hok : (ofNodes (brokenRecords.map Record.resolve)).units.result.toOption.any (fun units =>
      (renderModule units "vss").result.isOk &&
        ((units.any fun u => (noteLines u).contains ['B', '`']) &&
          units.any fun u => (noteLines u).contains "/// a\rb".toList)) = true := by
    decide +kernel
  obtain ⟨units, files, hu, hf, htest⟩ := exists_rendered hok
  simp only [Bool.and_eq_true, List.any_eq_true, List.contains_eq_mem, decide_eq_true_eq] at htest
  obtain ⟨⟨u, hm, hbroken⟩, v, hv, hreturn⟩ := htest
  refine ⟨_, units, files, read_brokenJson, hu, hf, ⟨u, hm, fileOf_mem hf hm, ?_⟩,
    v, hv, fileOf_mem hf hv, ?_⟩
  · obtain ⟨line, hline, hindented⟩ := (lines_fileOf (isNamed_of_mem_units hu hm)).2 _ hbroken
    exact ⟨line, hline, _, hbroken, hindented, hindented.isComment_iff.not.mpr (by decide)⟩
  · obtain ⟨line, hline, hindented⟩ := (lines_fileOf (isNamed_of_mem_units hu hv)).2 _ hreturn
    exact ⟨line, hline, _, hreturn, hindented, hindented.return_mem_iff.mpr (by simp)⟩

end Registry

end SignalTree
