import SignalTree.Proofs.ItemDecl
import SignalTree.Proofs.UnitItems
import SignalTree.Source.File

/-!
What the files of a module are read as: the file of a unit declares its items, and the
index has a module and an exported type for every unit, and two traits.
-/
namespace SignalTree.Source

/-- A file has a header, which is a fixed line, a note on the file and a blank line. It is read
as the note is, and then as what stands below the header. -/
structure Reads (f : SourceFile) (note : String) (os : List Outline) : Prop where
  below : ∃ body, f.contents = generatedNote ++ "\n" ++ note ++ "\n\n" ++ body ∧
    outline? body = some os
  whole : outline? f.contents = (outline? note).map (· ++ os)

namespace Reads

variable {f : SourceFile} {note : String} {os : List Outline}

theorem outline?_eq_append_iff (h : Reads f note os) {ns : List Outline} :
    outline? f.contents = some (ns ++ os) ↔ outline? note = some ns := by
  rw [h.whole, Option.map_eq_some_iff]
  simp only [List.append_cancel_right_eq, exists_eq_right]

/-- Nothing but what stands below the header is read if and only if the note is silent. -/
theorem outline?_eq_iff (h : Reads f note os) : outline? f.contents = some os ↔ IsSilent note := by
  rw [← outline?_eq_nil_iff, ← h.outline?_eq_append_iff, List.nil_append]

end Reads

theorem render_header (note : String) :
    render [.line generatedNote, .line note, .blank] = generatedNote ++ "\n" ++ note ++ "\n\n" := by
  apply String.toList_injective
  simp [render, Code.linesOf, Code.lines, Line.chars]

theorem reads_render (name note : String) {body : List Code} (hbody : Code.ShapedAll body) :
    Reads ⟨name, render ([.line generatedNote, .line note, .blank] ++ body)⟩ note
      (Code.outlineOf body) where
  below := ⟨render body, by rw [render_append, render_header], Code.outline?_render hbody⟩
  whole := by
    have hgenerated : IsSilent generatedNote :=
      isSilent_of_not_mem (by decide +kernel) (by decide +kernel)
    have hbelow : Code.ShapedAll (.blank :: body) := ⟨trivial, hbody⟩
    have hcontents : render ([.line generatedNote, .line note, .blank] ++ body) =
        generatedNote ++ "\n" ++ note ++ "\n" ++ render (.blank :: body) := by
      apply String.toList_injective
      simp [render, Code.linesOf, Code.lines, Line.chars]
    rw [hcontents, Code.outline?_append_render _ hbelow, outline?_append_of_isSilent hgenerated]
    rfl

def unitNote (u : TypeUnit) : String := "//! `" ++ u.decl.path.text ++ "`"

/-- The file of a unit, whether or not names clash. -/
def fileOf (u : TypeUnit) : SourceFile := ⟨unitFile u, render (unitCode u)⟩

def unitOutline (u : TypeUnit) : List Outline :=
  Code.outlineOf (Code.spaced (Item.codesOf (unitItems u)))

theorem reads_fileOf {u : TypeUnit} (hu : u.IsNamed) :
    Reads (fileOf u) (unitNote u) (unitOutline u) :=
  reads_render _ _ (Item.declares_codesOf _ (eachWritable_unitItems hu)).1

theorem declsOf_unitOutline {u : TypeUnit} (hu : u.IsNamed) :
    Outline.declsOf (unitOutline u) = Item.declsOf (unitItems u) := by
  rw [unitOutline, Item.outlineOf_spaced, Item.declsOf_codesOf _ (eachWritable_unitItems hu)]

theorem result_renderUnit (u : TypeUnit) :
    (renderUnit u).result = (checkUnit u).map fun _ => ⟨unitFile u, render (unitCode u)⟩ := by
  rw [renderUnit, Outcome.result_bind]
  change (checkUnit u >>= _) = _
  cases checkUnit u <;> rfl

theorem renderUnit_eq_ok {u : TypeUnit} {file : SourceFile} :
    (renderUnit u).result = .ok file ↔ (∃ x, checkUnit u = .ok x) ∧ file = fileOf u := by
  rw [result_renderUnit, fileOf]
  cases checkUnit u with
  | error e => simp [Except.map]
  | ok x => simp [Except.map, eq_comm]

/-- What an index has besides comments. -/
inductive Entry where
  | submodule (name : String)
  | export (path : TypePath)
  | trait (name : String)
deriving DecidableEq

def entryOf? : Outline → Option Entry
  | .line content =>
    match words content with
    | ["pub", "mod", name] => (dropMark? ';' name).map .submodule
    | ["pub", "use", path] => (dropMark? ';' path).map fun text => .export (.ofText text)
    | _ => none
  | .block head _ =>
    match words head with
    | ["pub", "trait", name, "\x7b"] => some (.trait name)
    | _ => none

def entries (cs : List Code) : List Entry := (Code.outlineOf cs).filterMap entryOf?

theorem entries_append (xs ys : List Code) : entries (xs ++ ys) = entries xs ++ entries ys := by
  simp [entries, Code.outlineOf_eq]

theorem entries_paragraph (lines : List Code) : entries (paragraph lines) = entries lines := by
  unfold paragraph
  split
  · next h => rw [List.isEmpty_iff.mp h]
  · rw [entries_append]
    exact List.append_nil _

theorem shapedAll_paragraph {lines : List Code} (h : ∀ c ∈ lines, c.Shaped) :
    Code.ShapedAll (paragraph lines) := by
  unfold paragraph
  rw [Code.shapedAll_iff]
  split
  · simp
  · simpa [or_imp, forall_and] using ⟨h, trivial⟩

structure IsEntry (c : Code) (e : Entry) : Prop where
  shaped : c.Shaped
  entry : entries [c] = [e]

theorem isEntry_line {text : String} {e : Entry} (h : Code.IsPlain text) (hne : text.toList ≠ [])
    (he : entryOf? (.line text.toList) = some e) : IsEntry (.line text) e where
  shaped := h.shaped
  entry := by
    rw [entries, Code.outlineOf, Code.outline_line h hne, Code.outlineOf, List.append_nil,
      List.filterMap_cons, he, List.filterMap_nil]

theorem entries_map {α : Type} {names : List α} {f : α → Code} {e : α → Entry}
    (h : ∀ n ∈ names, IsEntry (f n) (e n)) : entries (names.map f) = names.map e := by
  induction names with
  | nil => rfl
  | cons n names ih =>
    obtain ⟨hn, hnames⟩ := List.forall_mem_cons.mp h
    rw [List.map_cons, ← List.singleton_append, entries_append, hn.entry, ih hnames,
      List.singleton_append, List.map_cons]

theorem isEntry_submoduleLine (name : String) :
    IsEntry (submoduleLine name) (.submodule (moduleName name)) := by
  have hname := isName_moduleName name
  have hplain : Code.IsPlain ("pub mod " ++ moduleName name ++ ";") := by
    refine Code.isPlain_of 'p' ';' ?_ ?_ ?_ (by decide) (by decide)
    · simpa using hname.not_mem (by decide)
    · simp
    · simp [List.getLast?_append, List.getLast?_cons]
  refine isEntry_line hplain (by simp) ?_
  have hwords : words ("pub mod " ++ moduleName name ++ ";").toList =
      ["pub", "mod", moduleName name ++ ";"] :=
    words_eq _ (by simp) (by simpa using hname.not_mem (by decide)) (by simp)
  simp only [entryOf?, hwords, dropMark?_append _ (show ";".toList = [';'] by simp),
    Option.map_some]

def exportPath (typeName : String) : TypePath := ⟨[moduleName typeName], typeName⟩

theorem isEntry_exportLine {name : String} (h : IsTypeName name) :
    IsEntry (exportLine name) (.export (exportPath name)) := by
  have hnamed : (exportPath name).IsNamed :=
    ⟨by simpa [exportPath] using isName_moduleName name, h.isName⟩
  have hplain : Code.IsPlain ("pub use " ++ (exportPath name).text ++ ";") := by
    refine Code.isPlain_of 'p' ';' ?_ ?_ ?_ (by decide) (by decide)
    · simpa using hnamed.newline_not_mem
    · simp
    · simp [List.getLast?_append, List.getLast?_cons]
  refine isEntry_line hplain (by simp) ?_
  have hwords : words ("pub use " ++ (exportPath name).text ++ ";").toList =
      ["pub", "use", (exportPath name).text ++ ";"] :=
    words_eq _ (by simp) (by simpa using hnamed.not_mem_text (by decide) (by decide)) (by simp)
  change entryOf? (.line ("pub use " ++ (exportPath name).text ++ ";").toList) = _
  simp only [entryOf?, hwords, dropMark?_append _ (show ";".toList = [';'] by simp),
    Option.map_some, TypePath.ofText_text hnamed]

/-- The index below its header. -/
def indexBody (names : List String) : List Code :=
  paragraph (names.map submoduleLine) ++ paragraph (names.map exportLine) ++
    (nodeTraitCode ++ .blank :: childTraitCode)

def indexNote (module : String) : String := "//! VSS node model `" ++ module ++ "`."

theorem indexCode_eq (names : List String) (module : String) : indexCode names module =
    [.line generatedNote, .line (indexNote module), .blank] ++ indexBody names := by
  unfold indexCode indexBody indexNote
  rw [List.append_assoc, List.append_assoc, List.append_assoc, List.append_assoc]

theorem shapedAll_traits : Code.ShapedAll (nodeTraitCode ++ .blank :: childTraitCode) := by
  simp only [nodeTraitCode, childTraitCode, List.cons_append, List.nil_append, Code.ShapedAll,
    Code.Shaped, braces]
  and_intros <;> decide +kernel

theorem shapedAll_indexBody {names : List String} (h : ∀ n ∈ names, IsTypeName n) :
    Code.ShapedAll (indexBody names) := by
  have hsubmodules := shapedAll_paragraph (List.forall_mem_map.mpr fun n (_ : n ∈ names) =>
    (isEntry_submoduleLine n).shaped)
  have hexports := shapedAll_paragraph (List.forall_mem_map.mpr fun n hn =>
    (isEntry_exportLine (h n hn)).shaped)
  have htraits := shapedAll_traits
  rw [Code.shapedAll_iff] at hsubmodules hexports htraits ⊢
  exact List.forall_mem_append.mpr ⟨List.forall_mem_append.mpr ⟨hsubmodules, hexports⟩, htraits⟩

theorem entries_indexBody {names : List String} (h : ∀ n ∈ names, IsTypeName n) :
    entries (indexBody names) = names.map (fun n => .submodule (moduleName n)) ++
      names.map (fun n => .export (exportPath n)) ++ [.trait nodeTrait, .trait childTrait] := by
  have htraits : entries (nodeTraitCode ++ .blank :: childTraitCode) =
      [.trait nodeTrait, .trait childTrait] := by decide +kernel
  rw [indexBody, entries_append, entries_append, entries_paragraph, entries_paragraph,
    entries_map fun n _ => isEntry_submoduleLine n,
    entries_map fun n hn => isEntry_exportLine (h n hn), htraits]

def indexOutline (units : List TypeUnit) : List Outline :=
  Code.outlineOf (indexBody (units.map (·.decl.name)))

section

variable {units : List TypeUnit} (hunits : ∀ u ∈ units, IsTypeName u.decl.name)

include hunits

theorem reads_renderIndex (module : String) :
    Reads (renderIndex units module) (indexNote module) (indexOutline units) := by
  rw [renderIndex, indexCode_eq]
  exact reads_render _ _ (shapedAll_indexBody (List.forall_mem_map.mpr hunits))

theorem entries_indexOutline :
    (indexOutline units).filterMap entryOf? =
      units.map (fun u => .submodule (moduleName u.decl.name)) ++
        units.map (fun u => .export (exportPath u.decl.name)) ++
        [.trait nodeTrait, .trait childTrait] := by
  refine (entries_indexBody (List.forall_mem_map.mpr hunits)).trans ?_
  rw [List.map_map, List.map_map]
  rfl

end

end SignalTree.Source
