import SignalTree.Proofs.Elementwise
import SignalTree.Proofs.Listing

/-!
The flat layout read line by line. Attributes are searched for in the text of all lines of an
entry, but what is found always stands at the start of a line below the header.
-/
namespace SignalTree

theorem subset_of_mem_splitOnP {p : α → Bool} {xs part : List α} (h : part ∈ xs.splitOnP p) :
    part ⊆ xs := by
  induction xs generalizing part with
  | nil => simp_all
  | cons x xs ih =>
    rw [List.splitOnP_cons_eq_if_modifyHead] at h
    split at h
    · rcases List.mem_cons.mp h with rfl | h
      · exact List.nil_subset _
      · exact List.subset_cons_of_subset x (ih h)
    · obtain ⟨first, more, hparts⟩ := List.exists_cons_of_ne_nil (List.splitOnP_ne_nil p xs)
      rw [hparts] at h ih
      rcases List.mem_cons.mp h with rfl | h
      · exact List.cons_subset_cons x (ih List.mem_cons_self)
      · exact List.subset_cons_of_subset x (ih (List.mem_cons_of_mem _ h))

namespace Text

theorem stripPrefix?_eq_ite (start cs : List Char) :
    stripPrefix? start cs = if start.isPrefixOf cs then some (cs.drop start.length) else none := by
  split
  · next h =>
    obtain ⟨rest, rfl⟩ := List.isPrefixOf_iff_prefix.mp h
    rw [List.drop_left, stripPrefix?_eq_some]
  · next h =>
    rw [Option.eq_none_iff_forall_ne_some]
    rintro rest hrest
    exact h (List.isPrefixOf_iff_prefix.mpr ⟨rest, (stripPrefix?_eq_some.mp hrest).symm⟩)

end Text

namespace Definition.Flat

/-! Entries are the longest runs of lines that are not blank. -/

def runs (lines : List Line) : List (List Line) :=
  (lines.splitOnP List.isEmpty).filter (!·.isEmpty)

theorem runs_of_filled {lines : List Line} (h : ∀ line ∈ lines, line.isEmpty = false) :
    runs lines = [lines].filter (!·.isEmpty) := by
  rw [runs, List.splitOnP_eq_singleton h]

theorem runs_append_blank {lines : List Line} (h : ∀ line ∈ lines, line.isEmpty = false)
    (rest : List Line) :
    runs (lines ++ [] :: rest) = [lines].filter (!·.isEmpty) ++ runs rest := by
  rw [runs, List.splitOnP_append_cons_of_forall_mem h [] rfl, ← List.singleton_append,
    List.filter_append, runs]

theorem paragraphsFrom_eq_runs {current : List Line} (h : ∀ line ∈ current, line.isEmpty = false)
    (lines : List Line) :
    paragraphsFrom current lines = runs (current.reverse ++ lines) := by
  induction lines generalizing current with
  | nil =>
    rw [List.append_nil, runs_of_filled (by simpa using h)]
    cases current <;> simp [paragraphsFrom]
  | cons line rest ih =>
    cases line with
    | nil =>
      have hrest : paragraphsFrom [] rest = runs rest := ih (by simp)
      rw [runs_append_blank (by simpa using h), ← hrest]
      cases current <;> simp [paragraphsFrom]
    | cons c line =>
      have hfilled : ∀ l ∈ (c :: line) :: current, l.isEmpty = false := by simpa using h
      simpa [paragraphsFrom] using ih hfilled

def entries (source : String) : List (List Line) := runs (contentLines source.toList)

theorem paragraphs_eq_runs (lines : List Line) : paragraphs lines = runs lines :=
  paragraphsFrom_eq_runs (by simp) lines

theorem newline_not_mem_entries {source : String} {entry : List Line} {line : Line}
    (hentry : entry ∈ entries source) (hline : line ∈ entry) : '\n' ∉ line := by
  have hcontent := subset_of_mem_splitOnP (List.mem_of_mem_filter hentry) hline
  obtain ⟨raw, hraw, rfl⟩ := List.mem_map.mp (List.mem_of_mem_filter hcontent)
  exact fun hc => Text.not_mem_lines hraw (Text.mem_trim hc)

/-! Attributes stand at the start of a line. -/

def keyText (a : Attribute) : Line := a.name.toList ++ [':', ' ']

def valueOn (lines : List Line) (a : Attribute) : String :=
  match lines.find? (keyText a).isPrefixOf with
  | none => ""
  | some line => .ofList (Text.unquote (Text.trim (line.drop (keyText a).length)))

/-- The search through the text of all lines finds what stands at the start of one: nothing
within a line, across two lines or in the header is ever taken for the key. -/
theorem attributeValue_eq_valueOn {lines : List Line} (h : ∀ line ∈ lines, '\n' ∉ line)
    (a : Attribute) : attributeValue (bodyText lines) a = valueOn lines a := by
  have hkey : '\n' ∉ keyText a := by simp [keyText, a.newline_not_mem_name]
  induction lines with
  | nil => rfl
  | cons line rest ih =>
    obtain ⟨hline, hrest⟩ := List.forall_mem_cons.mp h
    rw [attributeValue, List.cons_append, ← keyText, after?_bodyText_cons hkey hline,
      Text.stripPrefix?_eq_ite, valueOn, List.find?_cons]
    cases hprefix : (keyText a).isPrefixOf line with
    | false => exact ih hrest
    | true =>
      have hvalue : '\n' ∉ line.drop (keyText a).length := fun hc =>
        hline (List.mem_of_mem_drop hc)
      simp only [if_true, takeWhile_append_bodyText hvalue]

/-! Reading an entry. -/

/-- An entry whose header has `before` in front of its first colon, and `lines` below it. -/
def HasHeader (entry : List Line) (before : List Char) (lines : List Line) : Prop :=
  ':' ∉ before ∧ ∃ after, entry = (before ++ ':' :: after) :: lines

def IsSound (entry : List Line) : Prop :=
  ∃ before lines, HasHeader entry before lines ∧ Text.trim before ≠ [] ∧ valueOn lines .type ≠ ""

def IsReadAs (entry : List Line) (record : Record) : Prop :=
  ∃ before lines, HasHeader entry before lines ∧ record.path.text.toList = Text.trim before ∧
    ∀ a, record.get a = valueOn lines a

inductive HasDefect (entry : List Line) : Defect → Prop
  | withoutColon (colon : ':' ∉ entry.headD []) :
      HasDefect entry (.headerWithoutColon (.ofList (entry.headD [])))
  | withoutPath {before : List Char} {lines : List Line} (header : HasHeader entry before lines)
      (path : Text.trim before = []) :
      HasDefect entry (.headerWithoutPath (.ofList (entry.headD [])))
  | untyped {before : List Char} {lines : List Line} (header : HasHeader entry before lines)
      (path : Text.trim before ≠ []) (type : valueOn lines .type = "") :
      HasDefect entry (.missingType (.ofText (.ofList (Text.trim before))))

theorem readParagraph_of_hasHeader {entry : List Line} {before : List Char} {lines : List Line}
    (hentry : ∀ line ∈ entry, '\n' ∉ line) (h : HasHeader entry before lines) :
    readParagraph entry =
      if (Text.trim before).isEmpty then .error (.headerWithoutPath (.ofList (entry.headD [])))
      else
        match Record.ofAttributes? (.ofText (.ofList (Text.trim before))) (valueOn lines) with
        | some record => .ok record
        | none => .error (.missingType (.ofText (.ofList (Text.trim before)))) := by
  obtain ⟨hbefore, after, rfl⟩ := h
  have hlines : attributeValue (bodyText lines) = valueOn lines :=
    funext (attributeValue_eq_valueOn fun line hline => hentry line (List.mem_cons_of_mem _ hline))
  rw [readParagraph, Text.splitOnce?_eq_some.mpr ⟨hbefore, rfl⟩, ← hlines]
  rfl

theorem readParagraph_meets {entry : List Line} (hentry : ∀ line ∈ entry, '\n' ∉ line) :
    Meets (readParagraph entry) (IsSound entry) (IsReadAs entry) (HasDefect entry) where
  total := by
    by_cases hcolon : ':' ∈ entry.headD []
    · cases entry with
      | nil => simp at hcolon
      | cons header lines =>
        obtain ⟨⟨before, after⟩, hsplit⟩ := Option.ne_none_iff_exists'.mp
          (mt Text.splitOnce?_eq_none.mp (not_not.mpr hcolon))
        obtain ⟨hbefore, hheader⟩ := Text.splitOnce?_eq_some.mp hsplit
        have h : HasHeader (header :: lines) before lines :=
          ⟨hbefore, after, by rw [← hheader]; rfl⟩
        by_cases hpath : Text.trim before = []
        · exact .inr ⟨_, .withoutPath h hpath⟩
        · by_cases htype : valueOn lines .type = ""
          · exact .inr ⟨_, .untyped h hpath htype⟩
          · exact .inl ⟨before, lines, h, hpath, htype⟩
    · exact .inr ⟨_, .withoutColon hcolon⟩
  ok := by
    rintro ⟨before, lines, h, hpath, htype⟩
    obtain ⟨record, hrecord, hrecordPath, hget⟩ :=
      Record.exists_ofAttributes? (.ofText (.ofList (Text.trim before))) htype
    refine ⟨record, ?_, before, lines, h, by simp [hrecordPath], hget⟩
    rw [readParagraph_of_hasHeader hentry h, if_neg (by simpa using hpath), hrecord]
  error := by
    intro d hd
    cases hd with
    | withoutColon hcolon =>
      cases entry with
      | nil => rfl
      | cons header lines =>
        have hsplit : Text.splitOnce? ':' header = none := Text.splitOnce?_eq_none.mpr hcolon
        rw [readParagraph, hsplit]
        rfl
    | withoutPath h hpath =>
      rw [readParagraph_of_hasHeader hentry h, if_pos (by simpa using hpath)]
    | untyped h hpath htype =>
      rw [readParagraph_of_hasHeader hentry h, if_neg (by simpa using hpath),
        Record.ofAttributes?_of_untyped _ htype]

/-- A text is read exactly if each of its entries has a path in front of the first colon and a
type on a line of its own. The first entry without decides what is reported. -/
theorem read_linewise (source : String) :
    ((∃ records, read source = .ok records) ↔ ∀ entry ∈ entries source, IsSound entry) ∧
      (∀ records, read source = .ok records → List.Forall₂ IsReadAs (entries source) records) ∧
      (∀ d, read source = .error d ↔ FirstWrong IsSound HasDefect (entries source) d) ∧
      ∀ entry ∈ entries source, ∀ a,
        attributeValue (bodyText entry.tail) a = valueOn entry.tail a := by
  have hread : read source = (entries source).mapM readParagraph := by
    rw [read, paragraphs_eq_runs, entries]
  have hspec := Meets.mapM fun entry hentry =>
    readParagraph_meets fun line hline => @newline_not_mem_entries source _ _ hentry hline
  rw [hread]
  refine ⟨hspec.isOk_iff, fun _ => hspec.as, fun _ => hspec.error_iff, ?_⟩
  intro entry hentry a
  exact attributeValue_eq_valueOn (fun line hline =>
    newline_not_mem_entries hentry (List.mem_of_mem_tail hline)) a

end Definition.Flat

end SignalTree
