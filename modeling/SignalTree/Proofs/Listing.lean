import Mathlib.Data.List.Forall2
import SignalTree.Definition.Flat
import SignalTree.Proofs.EntryTree

/-!
Entries listed one after another: a header and lines of attributes, with any
white space around each and blank lines between the entries.
-/
namespace SignalTree

namespace Text

/-- White space before and after a text. -/
def IsPadded (text line : List Char) : Prop :=
  ∃ before after, (∀ c ∈ before ++ after, isBlank c = true) ∧ line = before ++ text ++ after

theorem trimEnd_append_of_blank {cs blanks : List Char} (h : ∀ c ∈ blanks, isBlank c = true) :
    trimEnd (cs ++ blanks) = trimEnd cs := by
  rw [trimEnd, List.reverse_append, ← trimStart, trimStart_of_blank fun c hc =>
    h c (List.mem_reverse.mp hc)]
  rfl

theorem IsPadded.trim_eq {text line : List Char} (h : IsPadded text line) (ht : IsTrimmed text) :
    trim line = text := by
  obtain ⟨before, after, hblank, rfl⟩ := h
  have hbefore : ∀ c ∈ before, isBlank c = true := fun c hc => hblank c (by simp [hc])
  have hafter : ∀ c ∈ after, isBlank c = true := fun c hc => hblank c (by simp [hc])
  rw [trim, List.append_assoc, trimStart_of_blank hbefore]
  cases text with
  | nil =>
    have hall : trimStart (after ++ []) = [] := trimStart_of_blank hafter
    rw [List.append_nil] at hall
    simp [hall, trimEnd]
  | cons c text =>
    rw [trimStart_of_head? (by simpa using ht.first), trimEnd_append_of_blank hafter,
      trimEnd_of_getLast? ht.last]

end Text

namespace Attribute

theorem name_injective {a b : Attribute} (h : a.name = b.name) : a = b := by
  cases a <;> cases b <;> simp_all [name]

theorem colon_not_mem_name (a : Attribute) : ':' ∉ a.name.toList := by
  cases a <;> decide

theorem newline_not_mem_name (a : Attribute) : '\n' ∉ a.name.toList := by
  cases a <;> decide

theorem name_first (a : Attribute) :
    ∃ c rest, a.name.toList = c :: rest ∧ Text.isBlank c = false ∧ c ≠ '#' ∧ c ≠ '-' := by
  cases a <;> exact ⟨_, _, rfl, by decide, by decide, by decide⟩

end Attribute

namespace Definition

/-! What an entry's lines say. -/

namespace Entry

def headerText (e : Entry) : List Char := e.path.text.toList ++ [':']

def attributeText (e : Entry) (a : Attribute) : List Char :=
  a.name.toList ++ ':' :: ' ' :: (e.value a).toList

end Entry

namespace Flat

/-- The lines of an entry: its header, then each attribute that has a value, in
any order. -/
inductive IsParagraph (e : Entry) : List Line → Prop
  | lines {header : Line} {order : List Attribute} {body : List Line}
      (header_padded : Text.IsPadded e.headerText header)
      (order_nodup : order.Nodup) (mem_order : ∀ a, a ∈ order ↔ e.value a ≠ "")
      (body_padded :
        List.Forall₂ (fun a line => Text.IsPadded (e.attributeText a) line) order body) :
      IsParagraph e (header :: body)

/-- Entries one after another, with a blank line or the end of the text after each. -/
inductive Lists : List Entry → List Line → Prop
  | nil : Lists [] []
  | blank {es : List Entry} {line : Line} {rest : List Line} (line_blank : Text.IsPadded [] line)
      (tail : Lists es rest) : Lists es (line :: rest)
  | entry {e : Entry} {es : List Entry} {paragraph rest : List Line}
      (head : IsParagraph e paragraph) (parted : ∀ line ∈ rest.head?, Text.IsPadded [] line)
      (tail : Lists es rest) : Lists (e :: es) (paragraph ++ rest)

/-! Looking an attribute up. -/

theorem stripPrefix?_bodyText {key : List Char} (hkey : '\n' ∉ key) (line : Line)
    (rest : List Line) :
    Text.stripPrefix? key (line ++ bodyText rest) =
      (Text.stripPrefix? key line).map (· ++ bodyText rest) := by
  induction key generalizing line with
  | nil => rfl
  | cons k key ih =>
    obtain ⟨hk, hkey⟩ : '\n' ≠ k ∧ '\n' ∉ key := by simpa using hkey
    cases line with
    | nil => cases rest <;> simp [bodyText, Text.stripPrefix?, Ne.symm hk]
    | cons c line =>
      by_cases h : k = c
      · simp [Text.stripPrefix?, h, ih hkey]
      · simp [Text.stripPrefix?, h]

theorem after?_append_bodyText {line : Line} (hline : '\n' ∉ line) (key : List Char)
    (rest : List Line) :
    Text.after? ('\n' :: key) (line ++ bodyText rest) =
      Text.after? ('\n' :: key) (bodyText rest) := by
  induction line with
  | nil => rfl
  | cons c line ih =>
    obtain ⟨hc, hline⟩ : '\n' ≠ c ∧ '\n' ∉ line := by simpa using hline
    simp [Text.after?, Text.stripPrefix?, hc, ih hline]

theorem after?_bodyText_cons {key : List Char} (hkey : '\n' ∉ key) {line : Line}
    (hline : '\n' ∉ line) (rest : List Line) :
    Text.after? ('\n' :: key) (bodyText (line :: rest)) =
      match Text.stripPrefix? key line with
      | some value => some (value ++ bodyText rest)
      | none => Text.after? ('\n' :: key) (bodyText rest) := by
  have hbody : bodyText (line :: rest) = '\n' :: (line ++ bodyText rest) := rfl
  rw [hbody, Text.after?, Text.stripPrefix?, if_pos rfl, stripPrefix?_bodyText hkey,
    after?_append_bodyText hline]
  cases Text.stripPrefix? key line <;> rfl

theorem takeWhile_append_bodyText {line : Line} (hline : '\n' ∉ line) (rest : List Line) :
    (line ++ bodyText rest).takeWhile (· ≠ '\n') = line := by
  rw [List.takeWhile_append_of_pos fun c hc => by
    simpa using fun e : c = '\n' => hline (e ▸ hc)]
  cases rest <;> simp [bodyText]

theorem stripPrefix?_attributeText (e : Entry) (a b : Attribute) :
    Text.stripPrefix? (a.name.toList ++ [':', ' ']) (e.attributeText b) =
      if a = b then some (e.value b).toList else none := by
  split
  · next h =>
    subst h
    simp [Text.stripPrefix?_eq_some, Entry.attributeText]
  · next h =>
    rw [Option.eq_none_iff_forall_ne_some]
    intro value hvalue
    have htext : a.name.toList ++ ':' :: (' ' :: value) =
        b.name.toList ++ ':' :: (' ' :: (e.value b).toList) := by
      simpa [Entry.attributeText] using (Text.stripPrefix?_eq_some.mp hvalue).symm
    have hsplit : Text.splitOnce? ':' (a.name.toList ++ ':' :: (' ' :: value)) =
        some (a.name.toList, ' ' :: value) :=
      Text.splitOnce?_eq_some.mpr ⟨a.colon_not_mem_name, rfl⟩
    rw [htext, Text.splitOnce?_eq_some.mpr ⟨b.colon_not_mem_name, rfl⟩] at hsplit
    have hname : b.name.toList = a.name.toList := (Prod.mk.inj (Option.some.inj hsplit)).1
    exact h (Attribute.name_injective (String.toList_inj.mp hname.symm))

theorem newline_not_mem_attributeText (e : Entry) (a : Attribute) :
    '\n' ∉ e.attributeText a := by
  simp [Entry.attributeText, a.newline_not_mem_name, Entry.value, e.attributes.oneLine a]

theorem attributeValue_bodyText (e : Entry) (a : Attribute) (order : List Attribute) :
    attributeValue (bodyText (order.map e.attributeText)) a =
      if a ∈ order then e.value a else "" := by
  have hkey : '\n' ∉ a.name.toList ++ [':', ' '] := by simp [a.newline_not_mem_name]
  induction order with
  | nil => simp [attributeValue, bodyText, Text.after?, Text.stripPrefix?]
  | cons b order ih =>
    rw [attributeValue, List.cons_append, List.map_cons,
      after?_bodyText_cons hkey (newline_not_mem_attributeText e b), stripPrefix?_attributeText]
    by_cases h : a = b
    · subst h
      have hline : '\n' ∉ (e.value a).toList := e.attributes.oneLine a
      have htrim : Text.trim (e.value a).toList = (e.value a).toList :=
        (e.attributes.trimmed a).trim_eq
      have hquote : Text.unquote (e.value a).toList = (e.value a).toList :=
        Text.unquote_of_not_isQuoted (e.attributes.unquoted a)
      simp only [if_pos, List.mem_cons, true_or, takeWhile_append_bodyText hline, htrim, hquote,
        String.ofList_toList]
    · simp only [List.mem_cons, h, false_or]
      exact ih

/-- Every attribute of an entry is found in its lines, wherever it stands. -/
theorem attributeValue_eq {e : Entry} {order : List Attribute}
    (h : ∀ a, a ∈ order ↔ e.value a ≠ "") :
    attributeValue (bodyText (order.map e.attributeText)) = e.value := by
  funext a
  rw [attributeValue_bodyText]
  split
  · rfl
  · next ha => exact (not_not.mp fun hne => ha ((h a).mpr hne)).symm

/-! Reading entries. -/

/-- A path that fits into a header: nothing of it is cut off or taken for something else. -/
structure IsHeadingPath (path : Path) : Prop where
  noColon : ':' ∉ path.text.toList
  first : ∃ c rest, path.text.toList = c :: rest ∧ Text.isBlank c = false ∧ c ≠ '#'
  last : ∀ c ∈ path.text.toList.getLast?, Text.isBlank c = false

namespace IsHeadingPath

variable {path : Path} (h : IsHeadingPath path)
include h

theorem isTrimmed : Text.IsTrimmed path.text.toList := by
  obtain ⟨c, rest, hc, hblank, -⟩ := h.first
  refine ⟨?_, h.last⟩
  simpa [hc] using hblank

theorem child (name : EntryName) : IsHeadingPath (.child path name.toSegment) := by
  obtain ⟨c, rest, hc, hblank, hhash⟩ := h.first
  have htext : (Path.child path name.toSegment).text.toList =
      path.text.toList ++ '.' :: name.text.toList := by
    simp [Path.text]
  have hname : name.text.toList ≠ [] := by simpa using name.nonempty
  constructor
  · simp [htext, h.noColon, name.noColon]
  · exact ⟨c, rest ++ '.' :: name.text.toList, by simp [htext, hc], hblank, hhash⟩
  · rw [htext, List.getLast?_append_of_ne_nil _ (by simp), List.getLast?_cons]
    obtain ⟨l, hl⟩ := Option.isSome_iff_exists.mp (List.getLast?_isSome.mpr hname)
    have := name.trimmed.last l hl
    simpa [hl] using this

end IsHeadingPath

theorem readParagraph_lines {e : Entry} {order : List Attribute} (hpath : IsHeadingPath e.path)
    (h : ∀ a, a ∈ order ↔ e.value a ≠ "") :
    readParagraph (e.headerText :: order.map e.attributeText) = .ok e.record := by
  have hsplit : Text.splitOnce? ':' e.headerText = some (e.path.text.toList, []) :=
    Text.splitOnce?_eq_some.mpr ⟨hpath.noColon, rfl⟩
  have htrim : Text.trim e.path.text.toList = e.path.text.toList := hpath.isTrimmed.trim_eq
  have hne : e.path.text.toList.isEmpty = false := by
    obtain ⟨c, rest, hc, -⟩ := hpath.first
    simp [hc]
  simp only [readParagraph, hsplit, htrim, hne, Bool.false_eq_true, if_false, String.ofList_toList,
    Path.ofText_text, attributeValue_eq h, Entry.ofAttributes?_value]

/-! The lines of a listing without the white space around them. -/

/-- Trimmed lines less those that are ignored. -/
def content (lines : List Line) : List Line := (lines.map Text.trim).filter (!isIgnored ·)

@[simp] theorem content_append (ls ms : List Line) :
    content (ls ++ ms) = content ls ++ content ms := by
  simp [content]

theorem content_cons_of_blank {line : Line} (h : Text.IsPadded [] line) (rest : List Line) :
    content (line :: rest) = [] :: content rest := by
  have htrim : Text.trim line = [] := h.trim_eq ⟨by simp, by simp⟩
  simp [content, htrim, isIgnored]

theorem isTrimmed_headerText {e : Entry} (hpath : IsHeadingPath e.path) :
    Text.IsTrimmed e.headerText := by
  obtain ⟨c, rest, hc, hblank, -⟩ := hpath.first
  refine ⟨by simpa [Entry.headerText, hc] using hblank, ?_⟩
  have hcolon : Text.isBlank ':' = false := by decide
  simpa [Entry.headerText] using hcolon

theorem isTrimmed_attributeText {e : Entry} {a : Attribute} (h : e.value a ≠ "") :
    Text.IsTrimmed (e.attributeText a) := by
  obtain ⟨c, rest, hc, hblank, -⟩ := a.name_first
  refine ⟨by simpa [Entry.attributeText, hc] using hblank, ?_⟩
  obtain ⟨l, hl⟩ := Option.isSome_iff_exists.mp
    (List.getLast?_isSome.mpr (show (e.value a).toList ≠ [] by simpa using h))
  have := (e.attributes.trimmed a).last l hl
  rw [Entry.attributeText, List.getLast?_append_of_ne_nil _ (by simp), List.getLast?_cons_cons,
    List.getLast?_cons]
  simpa [hl] using this

theorem content_eq_of_padded {text : α → Line} {as : List α} {lines : List Line}
    (h : List.Forall₂ (fun a line => Text.IsPadded (text a) line) as lines)
    (htext : ∀ a ∈ as, Text.IsTrimmed (text a) ∧ isIgnored (text a) = false) :
    content lines = as.map text := by
  induction h with
  | nil => rfl
  | @cons a line as lines hline _ ih =>
    obtain ⟨htrim, hkept⟩ := htext a List.mem_cons_self
    have ih := ih fun b hb => htext b (List.mem_cons_of_mem _ hb)
    simp only [content] at ih
    simp [content, hline.trim_eq htrim, hkept, ih]

theorem isIgnored_eq_false {c : Char} {rest : List Char} (hhash : c ≠ '#')
    (hdash : c :: rest ≠ ['-', '-', '-']) : isIgnored (c :: rest) = false := by
  have hfirst : ((c :: rest).head? == some '#') = false := by simpa using hhash
  rw [isIgnored, hfirst, beq_eq_false_iff_ne.mpr hdash, Bool.or_false]

theorem exists_content {e : Entry} {paragraph : List Line} (h : IsParagraph e paragraph)
    (hpath : IsHeadingPath e.path) :
    ∃ order : List Attribute, (∀ a, a ∈ order ↔ e.value a ≠ "") ∧
      content paragraph = e.headerText :: order.map e.attributeText := by
  cases h with
  | @lines header order body header_padded order_nodup mem_order body_padded =>
    refine ⟨order, mem_order, ?_⟩
    have hheader : content [header] = [e.headerText] := by
      obtain ⟨c, rest, hc, -, hhash⟩ := hpath.first
      have hkept : isIgnored e.headerText = false := by
        have hcolon : ':' ∈ c :: (rest ++ [':']) := by simp
        rw [Entry.headerText, hc]
        exact isIgnored_eq_false hhash fun hdash => absurd (hdash ▸ hcolon) (by decide)
      simp [content, header_padded.trim_eq (isTrimmed_headerText hpath), hkept]
    have hbody : content body = order.map e.attributeText := by
      refine content_eq_of_padded body_padded fun a ha => ?_
      refine ⟨isTrimmed_attributeText ((mem_order a).mp ha), ?_⟩
      obtain ⟨c, rest, hc, -, hhash, hdash⟩ := a.name_first
      rw [Entry.attributeText, hc]
      exact isIgnored_eq_false hhash fun h => hdash (List.cons.inj h).1
    rw [← List.singleton_append, content_append, hheader, hbody]
    rfl

/-! Paragraphs. -/

theorem paragraphsFrom_append {paragraph : List Line} (h : ∀ line ∈ paragraph, line ≠ [])
    (current rest : List Line) :
    paragraphsFrom current (paragraph ++ rest) =
      paragraphsFrom (paragraph.reverse ++ current) rest := by
  induction paragraph generalizing current with
  | nil => rfl
  | cons line paragraph ih =>
    have hline : (!line.isEmpty) = true := by simpa using h line List.mem_cons_self
    rw [List.cons_append, paragraphsFrom, if_pos hline,
      ih fun l hl => h l (List.mem_cons_of_mem _ hl)]
    simp

theorem paragraphsFrom_of_parted {current rest : List Line} (hne : current ≠ [])
    (h : ∀ line ∈ rest.head?, line = []) :
    paragraphsFrom current rest = current.reverse :: paragraphs rest := by
  have hcurrent : current.isEmpty = false := by simpa using hne
  cases rest with
  | nil => simp [paragraphs, paragraphsFrom, hcurrent]
  | cons line rest =>
    obtain rfl : line = [] := h line rfl
    simp [paragraphs, paragraphsFrom, hcurrent]

theorem paragraphsFrom_concat_blank (current lines : List Line) :
    paragraphsFrom current (lines ++ [[]]) = paragraphsFrom current lines := by
  induction lines generalizing current with
  | nil => cases current <;> simp [paragraphsFrom]
  | cons line lines ih => simp [paragraphsFrom, ih]

theorem readParagraph_of_lists {es : List Entry} {lines : List Line} (h : Lists es lines)
    (hpath : ∀ e ∈ es, IsHeadingPath e.path) :
    List.Forall₂ (fun paragraph e => readParagraph paragraph = .ok e.record)
      (paragraphs (content lines)) es := by
  induction h with
  | nil => exact .nil
  | blank line_blank _ ih =>
    rw [content_cons_of_blank line_blank]
    exact ih hpath
  | @entry e es paragraph rest head parted _ ih =>
    have hhere := hpath e List.mem_cons_self
    obtain ⟨order, hmem, hcontent⟩ := exists_content head hhere
    have hrest : ∀ line ∈ (content rest).head?, line = [] := by
      cases rest with
      | nil => simp [content]
      | cons line rest =>
        rw [content_cons_of_blank (parted line rfl)]
        simp
    have hne : ∀ line ∈ content paragraph, line ≠ [] := by
      simp [hcontent, Entry.headerText, Entry.attributeText]
    rw [content_append, paragraphs, paragraphsFrom_append hne,
      paragraphsFrom_of_parted (by simp [hcontent]) hrest, hcontent, List.append_nil,
      List.reverse_reverse]
    exact .cons (readParagraph_lines hhere hmem)
      (ih fun e he => hpath e (List.mem_cons_of_mem _ he))

theorem paragraphs_contentLines (source : List Char) :
    paragraphs (contentLines source) = paragraphs (content (Text.pieces '\n' source)) := by
  obtain ⟨tail, htail, hlines⟩ := Text.trim_lines_pieces source
  have hcontent : content (Text.pieces '\n' source) = contentLines source ++ tail := by
    rw [content, hlines, List.filter_append]
    congr 1
    rcases htail with rfl | rfl <;> rfl
  rcases htail with rfl | rfl
  · rw [hcontent, List.append_nil]
  · rw [hcontent, paragraphs, paragraphs, paragraphsFrom_concat_blank]

theorem mapM_readParagraph {paragraphs : List (List Line)} {es : List Entry}
    (h : List.Forall₂ (fun paragraph e => readParagraph paragraph = .ok e.record) paragraphs es) :
    paragraphs.mapM readParagraph = .ok (es.map Entry.record) := by
  induction h with
  | nil => rfl
  | cons hread _ ih =>
    rw [List.mapM_cons, hread, ih]
    rfl

theorem read_of_lists {es : List Entry} {source : String}
    (h : Lists es (Text.pieces '\n' source.toList)) (hpath : ∀ e ∈ es, IsHeadingPath e.path) :
    read source = .ok (es.map Entry.record) := by
  rw [read, paragraphs_contentLines]
  exact mapM_readParagraph (readParagraph_of_lists h hpath)

end Flat

end Definition

end SignalTree
