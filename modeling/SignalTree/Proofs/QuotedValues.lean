import SignalTree.Proofs.FlatLines
import SignalTree.Proofs.NestedEntries

/-!
Values between single quotes. A quote of the value is written twice there, but reading only
takes the outer pair away, so a value comes back exactly if it has no quote of its own.
-/
namespace SignalTree

namespace Text

def doubled (cs : List Char) : List Char :=
  cs.flatMap fun c => if c = '\'' then ['\'', '\''] else [c]

@[simp] theorem doubled_cons (c : Char) (cs : List Char) :
    doubled (c :: cs) = (if c = '\'' then ['\'', '\''] else [c]) ++ doubled cs := rfl

theorem length_doubled (cs : List Char) : (doubled cs).length = cs.length + cs.count '\'' := by
  induction cs with
  | nil => rfl
  | cons c cs ih =>
    by_cases h : c = '\''
    · simp [h, ih]
      omega
    · simp [h, ih]
      omega

theorem doubled_eq_nil_iff {cs : List Char} : doubled cs = [] ↔ cs = [] := by
  constructor
  · intro h
    have hlength := length_doubled cs
    rw [h, List.length_nil] at hlength
    exact List.length_eq_zero_iff.mp (by omega)
  · rintro rfl
    rfl

theorem doubled_eq_self_iff {cs : List Char} : doubled cs = cs ↔ '\'' ∉ cs := by
  constructor
  · intro h
    have hlength := length_doubled cs
    rw [h] at hlength
    exact List.count_eq_zero.mp (by omega)
  · intro h
    induction cs with
    | nil => rfl
    | cons c cs ih =>
      obtain ⟨hc, hcs⟩ : '\'' ≠ c ∧ '\'' ∉ cs := by simpa using h
      rw [doubled_cons, if_neg (Ne.symm hc), ih hcs, List.singleton_append]

def quoted (cs : List Char) : List Char := '\'' :: (cs ++ ['\''])

theorem unquote_quoted (cs : List Char) : unquote (quoted cs) = cs := by
  simp [quoted, unquote]

theorem trim_quoted (cs : List Char) : trim (quoted cs) = quoted cs := by
  have hquote : isBlank '\'' = false := by decide
  refine trim_of_ends ?_ ?_
  · simpa [quoted] using hquote
  · simpa [quoted, List.getLast?_cons] using hquote

end Text

theorem Record.ext_get {r s : Record} (hpath : r.path = s.path) (hget : r.get = s.get) : r = s := by
  have hattribute (a : Attribute) : r.get a = s.get a := congrFun hget a
  cases r
  cases s
  simp only [Record.mk.injEq]
  exact ⟨hpath, hattribute .uuid, hattribute .type, hattribute .description, hattribute .comment,
    hattribute .datatype, hattribute .unit, hattribute .min, hattribute .max⟩

namespace Definition.Flat

def quotedLine (a : Attribute) (value : String) : Line :=
  keyText a ++ Text.quoted (Text.doubled value.toList)

/-- The lines of an entry that gives an attribute no value but a quoted one, and that lacks
nothing else. -/
structure HoldsQuoted (path : List Char) (lines : List Line) (a : Attribute) (value : String) :
    Prop where
  path_filled : Text.trim path ≠ []
  value_filled : value ≠ ""
  mem : quotedLine a value ∈ lines
  only : ∀ line ∈ lines, keyText a <+: line → line = quotedLine a value
  typed : a ≠ .type → valueOn lines .type ≠ ""

namespace HoldsQuoted

variable {path : List Char} {lines : List Line} {a : Attribute} {value : String}

theorem valueOn_eq (h : HoldsQuoted path lines a value) :
    valueOn lines a = .ofList (Text.doubled value.toList) := by
  have hline : lines.find? (keyText a).isPrefixOf = some (quotedLine a value) := by
    obtain ⟨line, hline⟩ : ∃ line, lines.find? (keyText a).isPrefixOf = some line := by
      rw [← Option.isSome_iff_exists, List.find?_isSome]
      exact ⟨_, h.mem, List.isPrefixOf_iff_prefix.mpr (List.prefix_append _ _)⟩
    have hkey := List.isPrefixOf_iff_prefix.mp (List.find?_some hline)
    rw [hline, h.only line (List.mem_of_find?_eq_some hline) hkey]
  rw [valueOn, hline]
  simp only [quotedLine, List.drop_left, Text.trim_quoted, Text.unquote_quoted]

theorem valueOn_eq_iff (h : HoldsQuoted path lines a value) :
    valueOn lines a = value ↔ '\'' ∉ value.toList := by
  rw [h.valueOn_eq, ← Text.doubled_eq_self_iff, ← String.toList_inj, String.toList_ofList]

theorem isTyped (h : HoldsQuoted path lines a value) : valueOn lines .type ≠ "" := by
  by_cases ha : a = .type
  · subst ha
    rw [h.valueOn_eq]
    simpa [Text.doubled_eq_nil_iff] using h.value_filled
  · exact h.typed ha

end HoldsQuoted

theorem exists_readParagraph_of_quoted {entry : List Line} {path : List Char} {lines : List Line}
    {a : Attribute} {value : String} (hentry : ∀ line ∈ entry, '\n' ∉ line)
    (hheader : HasHeader entry path lines) (h : HoldsQuoted path lines a value) :
    ∃ record, readParagraph entry = .ok record ∧ record.path.text.toList = Text.trim path ∧
      record.get = valueOn lines := by
  obtain ⟨record, hrecord, hpath, hget⟩ :=
    Record.exists_ofAttributes? (.ofText (.ofList (Text.trim path))) h.isTyped
  refine ⟨record, ?_, by simp [hpath], funext hget⟩
  rw [readParagraph_of_hasHeader hentry hheader, if_neg (by simpa using h.path_filled), hrecord]

theorem exists_mapM_readParagraph {paragraphs : List (List Line)}
    (hlines : ∀ paragraph ∈ paragraphs, ∀ line ∈ paragraph, '\n' ∉ line)
    (hsound : ∀ paragraph ∈ paragraphs, IsSound paragraph) :
    ∃ records, paragraphs.mapM readParagraph = .ok records ∧
      records.length = paragraphs.length := by
  have hspec := Meets.mapM fun paragraph hparagraph =>
    readParagraph_meets (hlines paragraph hparagraph)
  obtain ⟨records, hrecords, has⟩ := hspec.ok hsound
  exact ⟨records, hrecords, has.length_eq.symm⟩

theorem readRecord_eq_iff {path : Path} {record : Record} {a : Attribute} {value : String}
    {members : List (String × Json)} (hpath : record.path = path) (htype : record.get .type ≠ "")
    (hvalue : value ≠ "") (hmember : Json.member? a.name members = some (.string value))
    (hothers : ∀ b, b ≠ a → Nested.Place.text ⟨path, .object members⟩ b = record.get b) :
    Nested.readRecord path members = .ok record ↔ record.get a = value := by
  have hplace : Nested.Place.text ⟨path, .object members⟩ a = value := by
    simp [Nested.Place.text, Nested.Place.member?, Json.members?, hmember, Nested.attributeText]
  have htyped : Nested.Place.text ⟨path, .object members⟩ .type ≠ "" := by
    by_cases ha : a = .type
    · rwa [← ha, hplace]
    · rwa [hothers .type (Ne.symm ha)]
  obtain ⟨nested, hnested, hread⟩ := Nested.readRecord_of_typed htyped
  rw [hnested, Except.ok.injEq]
  constructor
  · rintro rfl
    rw [hread.attributes a, hplace]
  · intro hget
    refine Record.ext_get (hread.path.trans hpath.symm) (funext fun b => ?_)
    by_cases hb : b = a
    · rw [hread.attributes b, hb, hplace, hget]
    · rw [hread.attributes b, hothers b hb]

/-- A value between single quotes is read with each of its own quotes twice. So it is the value
that was written, and the value of a nested entry, exactly if it has none. -/
theorem read_quoted {source : String} {before after : List (List Line)} {entry : List Line}
    {path : List Char} {lines : List Line} {a : Attribute} {value : String}
    (hentries : entries source = before ++ entry :: after)
    (hothers : ∀ other ∈ before ++ after, IsSound other)
    (hheader : HasHeader entry path lines) (h : HoldsQuoted path lines a value) :
    ∃ earlier record later, read source = .ok (earlier ++ record :: later) ∧
      earlier.length = before.length ∧ later.length = after.length ∧
      record.path.text.toList = Text.trim path ∧ record.get = valueOn lines ∧
      record.get a = .ofList (Text.doubled value.toList) ∧
      (record.get a = value ↔ '\'' ∉ value.toList) ∧
      ∀ members, Json.member? a.name members = some (.string value) →
        (∀ b, b ≠ a → Nested.Place.text ⟨record.path, .object members⟩ b = record.get b) →
        (Nested.readRecord record.path members = .ok record ↔ '\'' ∉ value.toList) := by
  have hlines : ∀ paragraph ∈ before ++ entry :: after, ∀ line ∈ paragraph, '\n' ∉ line :=
    fun paragraph hparagraph line => newline_not_mem_entries (hentries ▸ hparagraph)
  obtain ⟨hbefore, hentry, hafter⟩ := List.forall_mem_append.mp hlines |>.imp_right
    List.forall_mem_cons.mp
  obtain ⟨hsoundBefore, hsoundAfter⟩ := List.forall_mem_append.mp hothers
  obtain ⟨earlier, hearlier, hlength⟩ := exists_mapM_readParagraph hbefore hsoundBefore
  obtain ⟨record, hrecord, hpath, hget⟩ := exists_readParagraph_of_quoted hentry hheader h
  obtain ⟨later, hlater, hlength'⟩ := exists_mapM_readParagraph hafter hsoundAfter
  refine ⟨earlier, record, later, ?_, hlength, hlength', hpath, hget, ?_, ?_, ?_⟩
  · have hread : read source = (entries source).mapM readParagraph := by
      rw [read, paragraphs_eq_runs, entries]
    rw [hread, hentries, List.mapM_append, hearlier, List.mapM_cons, hrecord, hlater]
    rfl
  · rw [hget, h.valueOn_eq]
  · rw [hget, h.valueOn_eq_iff]
  · intro members hmember hsame
    have htype : record.get .type ≠ "" := by
      rw [hget]
      exact h.isTyped
    rw [readRecord_eq_iff rfl htype h.value_filled hmember hsame, hget, h.valueOn_eq_iff]

/-! A description with an apostrophe. -/

def doorText : String := "Driver's door"

def doorListing : String := "Vehicle:\n  description: 'Driver''s door'\n  type: branch"

def doorLines : List Line := ["description: 'Driver''s door'".toList, "type: branch".toList]

theorem entries_doorListing : entries doorListing = ["Vehicle:".toList :: doorLines] := by cbv

theorem holdsQuoted_doorLines :
    HoldsQuoted "Vehicle".toList doorLines .description doorText where
  path_filled := by decide +kernel
  value_filled := by decide
  mem := by decide +kernel
  only := by decide +kernel
  typed _ := by decide +kernel

def doorMembers : List (String × Json) :=
  [("type", .string "branch"), ("description", .string doorText)]

theorem read_quoted_door :
    entries doorListing = ["Vehicle:".toList :: doorLines] ∧
      HoldsQuoted "Vehicle".toList doorLines .description doorText ∧
      ∃ record, read doorListing = .ok [record] ∧ record.get .description = "Driver''s door" ∧
        Nested.readRecord record.path doorMembers ≠ .ok record := by
  obtain ⟨earlier, record, later, hread, hearlier, hlater, -, hget, hvalue, -, hnested⟩ :=
    @read_quoted doorListing [] [] _ _ _ _ _ entries_doorListing (List.forall_mem_nil _)
      ⟨by decide, [], rfl⟩ holdsQuoted_doorLines
  obtain rfl := List.length_eq_zero_iff.mp hearlier
  obtain rfl := List.length_eq_zero_iff.mp hlater
  refine ⟨entries_doorListing, holdsQuoted_doorLines, record, hread, hvalue, ?_⟩
  rw [ne_eq, hnested doorMembers rfl]
  · decide
  · intro b hb
    rw [hget]
    change ((Json.member? b.name doorMembers).map Nested.attributeText).getD "" =
      valueOn doorLines b
    clear * - hb
    revert hb
    cases b <;> decide +kernel

theorem apostrophe_read_twice :
    quotedLine .description doorText = "description: 'Driver''s door'".toList ∧
      (read doorListing).map (·.map (·.get .description)) = .ok ["Driver''s door"] ∧
      (read doorListing).map (·.map (·.get .description)) ≠ .ok [doorText] := by
  have hread : (read doorListing).map (·.map (·.get .description)) = .ok ["Driver''s door"] := by
    decide +kernel
  refine ⟨by decide +kernel, hread, ?_⟩
  rw [hread]
  decide +kernel

end Definition.Flat

end SignalTree
