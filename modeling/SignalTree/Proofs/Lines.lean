import SignalTree.Source.Code
import SignalTree.Text.Basic

/-!
Written code read as lines again. Indentation and line ends are white space, so
each line of a text trims to what stands on it.
-/
namespace SignalTree

namespace Text

theorem isBlank_space : isBlank ' ' = true := by decide

theorem isBlank_return : isBlank '\r' = true := by decide

theorem trimStart_of_blank {blanks cs : List Char} (h : ∀ c ∈ blanks, isBlank c = true) :
    trimStart (blanks ++ cs) = trimStart cs := by
  induction blanks with
  | nil => rfl
  | cons c blanks ih =>
    rw [trimStart, List.cons_append, List.dropWhile_cons_of_pos (h c List.mem_cons_self)]
    exact ih fun d hd => h d (List.mem_cons_of_mem _ hd)

theorem trimEnd_concat_of_blank {cs : List Char} {c : Char} (h : isBlank c = true) :
    trimEnd (cs ++ [c]) = trimEnd cs := by
  simp [trimEnd, h]

theorem trimEnd_isPrefix_self (cs : List Char) : trimEnd cs <+: cs := by
  rw [trimEnd, ← List.reverse_suffix, List.reverse_reverse]
  exact List.dropWhile_suffix _

theorem mem_trimEnd {cs : List Char} {c : Char} (h : c ∈ trimEnd cs) : c ∈ cs :=
  (trimEnd_isPrefix_self cs).subset h

theorem mem_trim {cs : List Char} {c : Char} (h : c ∈ trim cs) : c ∈ cs :=
  (List.dropWhile_suffix _).subset (mem_trimEnd h)

theorem trimStart_of_head? {cs : List Char} (h : ∀ c ∈ cs.head?, isBlank c = false) :
    trimStart cs = cs := by
  cases cs with
  | nil => rfl
  | cons c cs =>
    rw [trimStart, List.dropWhile_cons_of_neg]
    simp [h c rfl]

theorem trimEnd_of_getLast? {cs : List Char} (h : ∀ c ∈ cs.getLast?, isBlank c = false) :
    trimEnd cs = cs := by
  rw [trimEnd, ← trimStart, trimStart_of_head?, List.reverse_reverse]
  simpa using h

theorem trim_of_ends {cs : List Char} (hfirst : ∀ c ∈ cs.head?, isBlank c = false)
    (hlast : ∀ c ∈ cs.getLast?, isBlank c = false) : trim cs = cs := by
  rw [trim, trimStart_of_head? hfirst, trimEnd_of_getLast? hlast]

theorem trim_concat_of_blank {cs : List Char} {c : Char} (h : isBlank c = true) :
    trim (cs ++ [c]) = trim cs := by
  rw [trim, trim, trimStart, trimStart, List.dropWhile_append]
  split
  · next he =>
    rw [List.isEmpty_iff.mp he]
    simp [h]
  · exact trimEnd_concat_of_blank h

theorem lines_append {cs : List Char} (h : '\n' ∉ cs) (rest : List Char) :
    ∃ line, lines (cs ++ '\n' :: rest) = line :: lines rest ∧
      (line = cs ∨ cs = line ++ ['\r']) := by
  induction cs with
  | nil => exact ⟨[], by simp [lines], .inl rfl⟩
  | cons c cs ih =>
    obtain ⟨hc, hcs⟩ : '\n' ≠ c ∧ '\n' ∉ cs := by simpa using h
    by_cases hr : c = '\r' ∧ cs = []
    · obtain ⟨rfl, rfl⟩ := hr
      exact ⟨[], by simp [lines], .inr rfl⟩
    · obtain ⟨line, hlines, hline⟩ := ih hcs
      refine ⟨c :: line, ?_, ?_⟩
      · rw [List.cons_append, lines]
        · rw [hlines]
        · exact fun e => hc e.symm
        · intro rest' e he
          cases cs with
          | nil => exact hr ⟨e, rfl⟩
          | cons d cs => simp_all
      · rcases hline with rfl | rfl
        · exact .inl rfl
        · exact .inr rfl

theorem lines_of_not_mem {cs : List Char} (h : '\n' ∉ cs) (hne : cs ≠ []) : lines cs = [cs] := by
  induction cs with
  | nil => exact absurd rfl hne
  | cons c cs ih =>
    obtain ⟨hc, hcs⟩ : '\n' ≠ c ∧ '\n' ∉ cs := by simpa using h
    rw [lines]
    · by_cases he : cs = []
      · subst he
        rfl
      · rw [ih hcs he]
    · exact fun e => hc e.symm
    · rintro rest rfl rfl
      simp at hcs

/-- A text has the lines between its line feeds, but none after a final one. -/
theorem trim_lines_intercalate {ls : List (List Char)} (h : ∀ l ∈ ls, '\n' ∉ l) :
    ∃ tail, (tail = [] ∨ tail = [[]]) ∧
      ls.map trim = (lines (['\n'].intercalate ls)).map trim ++ tail := by
  induction ls with
  | nil => exact ⟨[], .inl rfl, rfl⟩
  | cons l ls ih =>
    have hl := h l List.mem_cons_self
    cases ls with
    | nil =>
      by_cases he : l = []
      · subst he
        exact ⟨[[]], .inr rfl, rfl⟩
      · exact ⟨[], .inl rfl, by simp [lines_of_not_mem hl he]⟩
    | cons l' ls =>
      obtain ⟨tail, htail, hlines⟩ := ih fun m hm => h m (List.mem_cons_of_mem _ hm)
      obtain ⟨line, hline, htrim⟩ := lines_append hl (['\n'].intercalate (l' :: ls))
      refine ⟨tail, htail, ?_⟩
      have hsame : trim l = trim line := by
        rcases htrim with rfl | rfl
        · rfl
        · exact trim_concat_of_blank isBlank_return
      rw [List.intercalate_cons_cons, List.append_assoc, List.singleton_append, hline,
        List.map_cons, hlines, List.map_cons, hsame, List.cons_append]

theorem trim_lines_pieces (cs : List Char) : ∃ tail, (tail = [] ∨ tail = [[]]) ∧
    (pieces '\n' cs).map trim = (lines cs).map trim ++ tail := by
  have h : ∀ piece ∈ pieces '\n' cs, '\n' ∉ piece := fun _ hpiece => not_mem_pieces hpiece
  have hlines := trim_lines_intercalate h
  rwa [intercalate_pieces] at hlines

end Text

namespace Source

def Line.content : Line → List Char
  | blank => []
  | text _ t => Text.trim t.toList

theorem Line.trim_line {indent : Nat} {cs line : List Char}
    (h : line = List.replicate (4 * indent) ' ' ++ cs ∨
      List.replicate (4 * indent) ' ' ++ cs = line ++ ['\r']) : Text.trim line = Text.trim cs := by
  have hindent : Text.trim (List.replicate (4 * indent) ' ' ++ cs) = Text.trim cs := by
    rw [Text.trim, Text.trimStart_of_blank]
    · rfl
    · intro c hc
      rw [List.eq_of_mem_replicate hc]
      exact Text.isBlank_space
  rcases h with rfl | h
  · exact hindent
  · rw [← hindent, h, Text.trim_concat_of_blank Text.isBlank_return]

def Line.OneLine : Line → Prop
  | blank => True
  | text _ t => '\n' ∉ t.toList

theorem map_trim_lines (ls : List Line) (h : ∀ l ∈ ls, l.OneLine) :
    (Text.lines (ls.flatMap Line.chars)).map Text.trim = ls.map Line.content := by
  induction ls with
  | nil => rfl
  | cons l ls ih =>
    have ih := ih fun l' hl => h l' (List.mem_cons_of_mem _ hl)
    cases l with
    | blank =>
      simp only [List.flatMap_cons, Line.chars, List.singleton_append, Text.lines, List.map_cons,
        ih, Line.content]
      rfl
    | text indent t =>
      have ht : '\n' ∉ List.replicate (4 * indent) ' ' ++ t.toList := by
        have := h _ List.mem_cons_self
        simp only [Line.OneLine] at this
        simp [this]
      obtain ⟨line, hlines, hline⟩ := Text.lines_append ht (ls.flatMap Line.chars)
      have hchars : (Line.text indent t :: ls).flatMap Line.chars =
          List.replicate (4 * indent) ' ' ++ t.toList ++ '\n' :: ls.flatMap Line.chars := by
        simp [Line.chars]
      rw [hchars, hlines, List.map_cons, List.map_cons, ih, Line.trim_line hline]
      rfl

/-- The lines of a text between its line feeds. -/
def physicalLines (text : String) : List (List Char) := Text.pieces '\n' text.toList

theorem physicalLines_append (a b : String) :
    physicalLines (a ++ "\n" ++ b) = physicalLines a ++ physicalLines b := by
  simp [physicalLines, Text.pieces_append_cons]

theorem physicalLines_of_not_mem {text : String} (h : '\n' ∉ text.toList) :
    physicalLines text = [text.toList] := Text.pieces_of_not_mem h

end Source

end SignalTree
