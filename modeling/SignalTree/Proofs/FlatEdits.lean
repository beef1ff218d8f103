import Mathlib.Data.List.Find
import Mathlib.Data.List.Induction
import Mathlib.Data.List.Pairwise
import Mathlib.Logic.Relation
import SignalTree.Proofs.FlatLines

/-!
Edits of a flat listing that change nothing of what is read: notes, blank lines, the white
space around a line, the kind of line ends, and the order of attributes.
-/
namespace SignalTree

namespace Text

theorem trim_append_of_blank {cs blanks : List Char} (h : ∀ c ∈ blanks, isBlank c = true) :
    trim (cs ++ blanks) = trim cs := by
  induction blanks using List.reverseRecOn with
  | nil => rw [List.append_nil]
  | append_singleton blanks c ih =>
    have hblanks := List.forall_mem_append.mp h
    rw [← List.append_assoc, trim_concat_of_blank (hblanks.2 c List.mem_cons_self), ih hblanks.1]

theorem IsPadded.trim_eq_trim {text line : List Char} (h : IsPadded text line) :
    trim line = trim text := by
  obtain ⟨before, after, hblank, rfl⟩ := h
  obtain ⟨hbefore, hafter⟩ := List.forall_mem_append.mp hblank
  rw [trim_append_of_blank hafter, trim, trimStart_of_blank hbefore, trim]

end Text

namespace Definition.Flat

def HasKey (a : Attribute) (line : Line) : Prop := keyText a <+: Text.trim line

instance (a : Attribute) (line : Line) : Decidable (HasKey a line) :=
  inferInstanceAs (Decidable (keyText a <+: Text.trim line))

/-- One edit of the lines of a text. -/
inductive Edit : List Line → List Line → Prop
  | note (above : List Line) {line : Line} (below : List Line)
      (ignored : isIgnored (Text.trim line) = true) :
      Edit (above ++ below) (above ++ line :: below)
  | lengthen (above : List Line) {blank more : Line} (below : List Line)
      (blank_blank : Text.IsPadded [] blank) (more_blank : Text.IsPadded [] more) :
      Edit (above ++ blank :: below) (above ++ blank :: more :: below)
  | first {blank : Line} (lines : List Line) (blank_blank : Text.IsPadded [] blank) :
      Edit lines (blank :: lines)
  | last (lines : List Line) {blank : Line} (blank_blank : Text.IsPadded [] blank) :
      Edit lines (lines ++ [blank])
  | pad (above : List Line) {text line line' : Line} (below : List Line)
      (line_padded : Text.IsPadded text line) (line'_padded : Text.IsPadded text line') :
      Edit (above ++ line :: below) (above ++ line' :: below)
  /-- A line feed ends every line but the last. -/
  | lineEnd (above : List Line) (line : Line) {below : List Line} (ended : below ≠ []) :
      Edit (above ++ line :: below) (above ++ (line ++ ['\r']) :: below)
  /-- Lines below a line of their entry, which is its header or stands below that itself. -/
  | reorder (above : List Line) {header : Line} {block block' : List Line} (below : List Line)
      (header_kept : isIgnored (Text.trim header) = false) (header_filled : Text.trim header ≠ [])
      (block_filled : ∀ line ∈ block, Text.trim line ≠ [])
      (keys : ∀ a, block.Pairwise fun l m => ¬ (HasKey a l ∧ HasKey a m))
      (perm : block.Perm block') :
      Edit (above ++ header :: (block ++ below)) (above ++ header :: (block' ++ below))

def IsEdited (source source' : String) : Prop :=
  Edit (Text.pieces '\n' source.toList) (Text.pieces '\n' source'.toList)

/-! What is read of the lines of a text. -/

def readLines (lines : List Line) : Except Defect (List Record) :=
  (paragraphs (content lines)).mapM readParagraph

theorem read_eq_readLines (source : String) :
    read source = readLines (Text.pieces '\n' source.toList) := by
  rw [read, paragraphs_contentLines, readLines]

theorem content_cons_of_ignored {line : Line} (h : isIgnored (Text.trim line) = true)
    (rest : List Line) : content (line :: rest) = content rest := by
  simp [content, h]

theorem content_cons_of_kept {line : Line} (h : isIgnored (Text.trim line) = false)
    (rest : List Line) : content (line :: rest) = Text.trim line :: content rest := by
  simp [content, h]

theorem content_cons_congr {line line' : Line} (h : Text.trim line = Text.trim line')
    (rest : List Line) : content (line :: rest) = content (line' :: rest) := by
  simp [content, h]

theorem content_perm {lines lines' : List Line} (h : lines.Perm lines') :
    (content lines).Perm (content lines') := (h.map _).filter _

theorem exists_of_mem_content {line : Line} {lines : List Line} (h : line ∈ content lines) :
    ∃ raw ∈ lines, Text.trim raw = line := List.mem_map.mp (List.mem_of_mem_filter h)

/-! Blank lines part paragraphs however many there are. -/

theorem paragraphs_cons_blank (lines : List Line) :
    paragraphs ([] :: lines) = paragraphs lines := by
  simp [paragraphs, paragraphsFrom]

theorem paragraphsFrom_append_blank_blank (current above below : List Line) :
    paragraphsFrom current (above ++ [] :: [] :: below) =
      paragraphsFrom current (above ++ [] :: below) := by
  induction above generalizing current with
  | nil => cases current <;> simp [paragraphsFrom]
  | cons line above ih => simp [paragraphsFrom, ih]

/-! The order of lines with different keys. -/

theorem valueOn_append_of_perm {block block' : List Line} (hperm : block.Perm block')
    {a : Attribute} (hkey : {line ∈ block | (keyText a).isPrefixOf line}.Subsingleton)
    (above below : List Line) :
    valueOn (above ++ (block ++ below)) a = valueOn (above ++ (block' ++ below)) a := by
  have hfind : (above ++ (block ++ below)).find? (keyText a).isPrefixOf =
      (above ++ (block' ++ below)).find? (keyText a).isPrefixOf := by
    simp only [List.find?_append, List.find?_eq_find?_of_perm hperm hkey]
  rw [valueOn, valueOn, hfind]

theorem readParagraph_cons_congr {header : Line} {lines lines' : List Line}
    (hlines : ∀ line ∈ lines, '\n' ∉ line) (hlines' : ∀ line ∈ lines', '\n' ∉ line)
    (h : valueOn lines = valueOn lines') :
    readParagraph (header :: lines) = readParagraph (header :: lines') := by
  have hvalues : attributeValue (bodyText lines) = attributeValue (bodyText lines') := by
    rw [funext (attributeValue_eq_valueOn hlines), funext (attributeValue_eq_valueOn hlines'), h]
  simp only [readParagraph, hvalues]

/-- Two paragraphs under way that say the same however they go on. -/
structure Alike (current current' : List Line) : Prop where
  isEmpty_eq : current.isEmpty = current'.isEmpty
  read_eq : ∀ more : List Line, (∀ line ∈ more, '\n' ∉ line) →
    readParagraph (current.reverse ++ more) = readParagraph (current'.reverse ++ more)

theorem Alike.cons {current current' : List Line} (h : Alike current current') {line : Line}
    (hline : '\n' ∉ line) : Alike (line :: current) (line :: current') where
  isEmpty_eq := rfl
  read_eq more hmore := by
    simpa using h.read_eq (line :: more) (List.forall_mem_cons.mpr ⟨hline, hmore⟩)

theorem mapM_paragraphsFrom_congr {current current' lines : List Line} (h : Alike current current')
    (hlines : ∀ line ∈ lines, '\n' ∉ line) :
    (paragraphsFrom current lines).mapM readParagraph =
      (paragraphsFrom current' lines).mapM readParagraph := by
  have hclosed : readParagraph current.reverse = readParagraph current'.reverse := by
    simpa using h.read_eq [] (List.forall_mem_nil _)
  induction lines generalizing current current' with
  | nil =>
    simp only [paragraphsFrom, h.isEmpty_eq]
    split
    · rfl
    · rw [List.mapM_cons, List.mapM_cons, hclosed]
  | cons line rest ih =>
    obtain ⟨hline, hrest⟩ := List.forall_mem_cons.mp hlines
    simp only [paragraphsFrom, h.isEmpty_eq]
    split
    · have hcons := h.cons hline
      exact ih hcons hrest (by simpa using hcons.read_eq [] (List.forall_mem_nil _))
    · split
      · rfl
      · rw [List.mapM_cons, List.mapM_cons, hclosed]

theorem alike_of_perm {start block block' : List Line} (hstart : start ≠ [])
    (hlines : ∀ line ∈ start ++ block, '\n' ∉ line) (hperm : block.Perm block')
    (hkeys : ∀ a, {line ∈ block | (keyText a).isPrefixOf line}.Subsingleton) :
    Alike (block.reverse ++ start) (block'.reverse ++ start) where
  isEmpty_eq := by
    have hunder (lines : List Line) : (lines ++ start).isEmpty = false := by simp [hstart]
    rw [hunder, hunder]
  read_eq more hmore := by
    obtain ⟨header, above, hfirst⟩ : ∃ header above, start.reverse = header :: above :=
      List.exists_cons_of_ne_nil (mt List.reverse_eq_nil_iff.mp hstart)
    obtain ⟨hbefore, hblock⟩ := List.forall_mem_append.mp hlines
    have habove : ∀ line ∈ above, '\n' ∉ line := fun line hline =>
      hbefore line (List.mem_reverse.mp (hfirst ▸ List.mem_cons_of_mem _ hline))
    have hblock' : ∀ line ∈ block', '\n' ∉ line := fun line hline =>
      hblock line (hperm.mem_iff.mpr hline)
    have hread : readParagraph (header :: (above ++ (block ++ more))) =
        readParagraph (header :: (above ++ (block' ++ more))) := by
      refine readParagraph_cons_congr ?_ ?_ (funext fun a =>
        valueOn_append_of_perm hperm (hkeys a) above more)
      · simp only [List.forall_mem_append]
        exact ⟨habove, hblock, hmore⟩
      · simp only [List.forall_mem_append]
        exact ⟨habove, hblock', hmore⟩
    simpa [hfirst] using hread

theorem mapM_paragraphsFrom_of_perm {header : Line} {current above block block' below : List Line}
    (hlines : ∀ line ∈ current ++ (above ++ header :: (block ++ below)), '\n' ∉ line)
    (hheader : header ≠ []) (hblock : ∀ line ∈ block, line ≠ []) (hperm : block.Perm block')
    (hkeys : ∀ a, {line ∈ block | (keyText a).isPrefixOf line}.Subsingleton) :
    (paragraphsFrom current (above ++ header :: (block ++ below))).mapM readParagraph =
      (paragraphsFrom current (above ++ header :: (block' ++ below))).mapM readParagraph := by
  induction above generalizing current with
  | nil =>
    have hblock' : ∀ line ∈ block', line ≠ [] := fun line hline =>
      hblock line (hperm.mem_iff.mpr hline)
    have hfilled : (!header.isEmpty) = true := by simpa using hheader
    simp only [List.nil_append, paragraphsFrom, hfilled, if_true, paragraphsFrom_append hblock,
      paragraphsFrom_append hblock']
    refine mapM_paragraphsFrom_congr (alike_of_perm (by simp) ?_ hperm hkeys) ?_
    · intro line hline
      exact hlines line (by grind)
    · intro line hline
      exact hlines line (by simp [hline])
  | cons line above ih =>
    have hbelow : ∀ l ∈ [] ++ (above ++ header :: (block ++ below)), '\n' ∉ l := fun l hl =>
      hlines l (by grind)
    have hunder : ∀ l ∈ line :: current ++ (above ++ header :: (block ++ below)), '\n' ∉ l :=
      fun l hl => hlines l (by grind)
    simp only [List.cons_append, paragraphsFrom]
    split
    · exact ih hunder
    · split
      · exact ih hbelow
      · rw [List.mapM_cons, List.mapM_cons, ih hbelow]

theorem newline_not_mem_content {lines : List Line} (h : ∀ line ∈ lines, '\n' ∉ line) :
    ∀ line ∈ content lines, '\n' ∉ line := by
  intro line hline hc
  obtain ⟨raw, hraw, rfl⟩ := exists_of_mem_content hline
  exact h raw hraw (Text.mem_trim hc)

/-- If both lines have the key, they are the same line with other white space around it. -/
def AgreeOn (a : Attribute) (l m : Line) : Prop :=
  HasKey a l → HasKey a m → Text.trim l = Text.trim m

instance (a : Attribute) : Std.Symm (AgreeOn a) := ⟨fun _ _ h hm hl => (h hl hm).symm⟩

theorem subsingleton_content {block : List Line} {a : Attribute}
    (h : block.Pairwise fun l m => ¬ (HasKey a l ∧ HasKey a m)) :
    {line ∈ content block | (keyText a).isPrefixOf line}.Subsingleton := by
  have hagree : ∀ l ∈ block, ∀ m ∈ block, AgreeOn a l m := fun l hl m hm =>
    List.Pairwise.forall_of_forall (fun _ _ _ _ => rfl)
      (h.imp fun hkeys hl hm => absurd ⟨hl, hm⟩ hkeys) hl hm
  rintro line ⟨hline, hkey⟩ line' ⟨hline', hkey'⟩
  obtain ⟨l, hl, rfl⟩ := exists_of_mem_content hline
  obtain ⟨m, hm, rfl⟩ := exists_of_mem_content hline'
  exact hagree l hl m hm (List.isPrefixOf_iff_prefix.mp hkey) (List.isPrefixOf_iff_prefix.mp hkey')

theorem readLines_of_edit {lines lines' : List Line} (hlines : ∀ line ∈ lines, '\n' ∉ line)
    (h : Edit lines lines') : readLines lines = readLines lines' := by
  cases h with
  | note above below ignored =>
    rw [readLines, readLines, content_append, content_append, content_cons_of_ignored ignored]
  | lengthen above below blank_blank more_blank =>
    simp only [readLines, content_append, content_cons_of_blank blank_blank,
      content_cons_of_blank more_blank, paragraphs, paragraphsFrom_append_blank_blank]
  | first lines blank_blank =>
    rw [readLines, readLines, content_cons_of_blank blank_blank, paragraphs_cons_blank]
  | last lines blank_blank =>
    rw [readLines, readLines, content_append, content_cons_of_blank blank_blank, paragraphs,
      paragraphs]
    exact congrArg _ (paragraphsFrom_concat_blank [] (content lines)).symm
  | pad above below line_padded line'_padded =>
    rw [readLines, readLines, content_append, content_append,
      content_cons_congr (line_padded.trim_eq_trim.trans line'_padded.trim_eq_trim.symm)]
  | lineEnd above line ended =>
    rw [readLines, readLines, content_append, content_append,
      content_cons_congr (Text.trim_concat_of_blank Text.isBlank_return).symm]
  | reorder above below header_kept header_filled block_filled keys perm =>
    have hfilled : ∀ line ∈ content _, line ≠ [] := fun line hline => by
      obtain ⟨raw, hraw, rfl⟩ := exists_of_mem_content hline
      exact block_filled raw hraw
    have hcontent := newline_not_mem_content hlines
    simp only [readLines, content_append, content_cons_of_kept header_kept, paragraphs]
      at hcontent ⊢
    exact mapM_paragraphsFrom_of_perm hcontent header_filled hfilled (content_perm perm)
      fun a => subsingleton_content (keys a)

/-- What is read of a text stays the same under any edits, one after another and undone again:
the records as well as what is wrong with the first entry that is not sound. -/
theorem read_eq_of_edited {source source' : String}
    (h : Relation.EqvGen IsEdited source source') : read source = read source' := by
  induction h with
  | rel source source' edited =>
    rw [read_eq_readLines, read_eq_readLines]
    exact readLines_of_edit (fun _ hline => Text.not_mem_pieces hline) edited
  | refl source => rfl
  | symm source source' _ ih => exact ih.symm
  | trans source source' source'' _ _ ih ih' => exact ih.trans ih'

/-! Two entries, restyled in four steps: a note inside the first entry, its attributes in another
order, the end of its header, and the white space on the last line, which has no line end. -/

def plainListing : String :=
  "Vehicle:\n  unit: km\n  type: branch\n\nVehicle.Speed:\n  type: sensor"

def notedListing : String :=
  "Vehicle:\n# in km\n  unit: km\n  type: branch\n\nVehicle.Speed:\n  type: sensor"

def reorderedListing : String :=
  "Vehicle:\n  type: branch\n# in km\n  unit: km\n\nVehicle.Speed:\n  type: sensor"

def returnedListing : String :=
  "Vehicle:\r\n  type: branch\n# in km\n  unit: km\n\nVehicle.Speed:\n  type: sensor"

def restyledListing : String :=
  "Vehicle:\r\n  type: branch\n# in km\n  unit: km\n\nVehicle.Speed:\n\ttype: sensor "

def vehicleBlock : List Line :=
  ["# in km".toList, "  unit: km".toList, "  type: branch".toList]

def reorderedBlock : List Line :=
  ["  type: branch".toList, "# in km".toList, "  unit: km".toList]

def speedBlock : List Line := [[], "Vehicle.Speed:".toList, "  type: sensor".toList]

theorem edited_plainListing : Relation.EqvGen IsEdited plainListing restyledListing := by
  have hplain : Text.pieces '\n' plainListing.toList =
      ["Vehicle:".toList] ++ (vehicleBlock.tail ++ speedBlock) := by decide +kernel
  have hnoted : Text.pieces '\n' notedListing.toList =
      ["Vehicle:".toList] ++ (vehicleBlock ++ speedBlock) := by decide +kernel
  have hreordered : Text.pieces '\n' reorderedListing.toList =
      ["Vehicle:".toList] ++ (reorderedBlock ++ speedBlock) := by decide +kernel
  have hreturned : Text.pieces '\n' returnedListing.toList =
      ("Vehicle:".toList ++ ['\r']) :: (reorderedBlock ++ speedBlock) := by decide +kernel
  have hrestyled : Text.pieces '\n' restyledListing.toList =
      ("Vehicle:".toList ++ ['\r']) :: (reorderedBlock ++ [[], "Vehicle.Speed:".toList]) ++
        ["\ttype: sensor ".toList] := by decide +kernel
  have note : IsEdited plainListing notedListing := by
    rw [IsEdited, hplain, hnoted]
    exact .note ["Vehicle:".toList] (vehicleBlock.tail ++ speedBlock) (by decide +kernel)
  have reorder : IsEdited notedListing reorderedListing := by
    rw [IsEdited, hnoted, hreordered]
    refine .reorder [] speedBlock (by decide +kernel) (by decide +kernel) (by decide +kernel) ?_
      (by decide +kernel)
    intro a
    cases a <;> decide +kernel
  have returned : IsEdited reorderedListing returnedListing := by
    rw [IsEdited, hreordered, hreturned]
    exact .lineEnd [] "Vehicle:".toList (by simp [reorderedBlock])
  have pad : IsEdited returnedListing restyledListing := by
    have hbefore : Text.IsPadded "type: sensor".toList "  type: sensor".toList :=
      ⟨"  ".toList, [], List.all_eq_true.mp (by decide +kernel), by decide +kernel⟩
    have hafter : Text.IsPadded "type: sensor".toList "\ttype: sensor ".toList :=
      ⟨['\t'], [' '], List.all_eq_true.mp (by decide +kernel), by decide +kernel⟩
    rw [IsEdited, hreturned, hrestyled]
    exact .pad (_ :: (reorderedBlock ++ [[], "Vehicle.Speed:".toList])) [] hbefore hafter
  exact .trans _ _ _ (.rel _ _ note) (.trans _ _ _ (.rel _ _ reorder)
    (.trans _ _ _ (.rel _ _ returned) (.rel _ _ pad)))

theorem read_restyledListing :
    Relation.EqvGen IsEdited plainListing restyledListing ∧
      read plainListing = read restyledListing ∧ (read restyledListing).isOk = true :=
  ⟨edited_plainListing, read_eq_of_edited edited_plainListing, by decide +kernel⟩

end Definition.Flat

end SignalTree
