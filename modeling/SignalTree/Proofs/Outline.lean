import SignalTree.Proofs.BlockScan

/-!
The blocks of a source text and the lines in them. Comments and blank lines are left
out. Written code reads back as the lines and blocks it was written from
(`outline?_render`).
-/
namespace SignalTree.Source

inductive Outline where
  | line (content : List Char)
  | block (head : List Char) (body : List Outline)

namespace Outline

/-- What was read of the block under way and of those around it, latest first. -/
structure Reader where
  current : List Outline
  outer : List (List Char × List Outline)

namespace Reader

def start : Reader := ⟨[], []⟩

def add (r : Reader) (parts : List Outline) : Reader :=
  { r with current := parts.reverse ++ r.current }

def enter (r : Reader) (head : List Char) : Reader := ⟨[], (head, r.current) :: r.outer⟩

def leave? (r : Reader) : Option Reader :=
  match r.outer with
  | [] => none
  | (head, parts) :: outer => some ⟨block head r.current.reverse :: parts, outer⟩

def read? (r : Reader) (content : List Char) : Option Reader :=
  if isComment content || content.isEmpty then some r
  else if closes content then r.leave?
  else some (if opens content then r.enter content else r.add [line content])

def readAll? (r : Reader) (lines : List (List Char)) : Option Reader := lines.foldlM read? r

def finish? (r : Reader) : Option (List Outline) :=
  if r.outer.isEmpty then some r.current.reverse else none

@[simp] theorem add_nil (r : Reader) : r.add [] = r := rfl

theorem add_add (r : Reader) (xs ys : List Outline) : (r.add xs).add ys = r.add (xs ++ ys) := by
  simp [add]

theorem leave?_enter (r : Reader) (head : List Char) (body : List Outline) :
    ((r.enter head).add body).leave? = some (r.add [block head body]) := by
  simp [leave?, add, enter]

theorem readAll?_append (r : Reader) (xs ys : List (List Char)) :
    r.readAll? (xs ++ ys) = (r.readAll? xs).bind (·.readAll? ys) := by
  simp only [readAll?, List.foldlM_append]
  rfl

theorem readAll?_cons (r : Reader) (content : List Char) (rest : List (List Char)) :
    r.readAll? (content :: rest) = (r.read? content).bind (·.readAll? rest) := by
  simp only [readAll?, List.foldlM_cons]
  rfl

theorem readAll?_singleton (r : Reader) (content : List Char) :
    r.readAll? [content] = r.read? content := by
  simp [readAll?]

theorem read?_silent (r : Reader) {content : List Char}
    (h : (isComment content || content.isEmpty) = true) : r.read? content = some r := by
  simp [read?, h]

theorem read?_closing (r : Reader) {content : List Char} (hcomment : isComment content = false)
    (hclose : closes content = true) : r.read? content = r.leave? := by
  have hne : content.isEmpty = false := by
    cases content with
    | nil => simp [closes] at hclose
    | cons => rfl
  simp [read?, hcomment, hne, hclose]

theorem read?_opening (r : Reader) {content : List Char} (hcomment : isComment content = false)
    (hclose : closes content = false) (hopen : opens content = true) :
    r.read? content = some (r.enter content) := by
  have hne : content.isEmpty = false := by
    cases content with
    | nil => simp [opens] at hopen
    | cons => rfl
  simp [read?, hcomment, hne, hclose, hopen]

theorem read?_line (r : Reader) {content : List Char}
    (h : (isComment content || content.isEmpty) = false) (hclose : closes content = false)
    (hopen : opens content = false) : r.read? content = some (r.add [line content]) := by
  simp [read?, h, hclose, hopen]

theorem finish?_add (r : Reader) (parts : List Outline) :
    (r.add parts).finish? = r.finish?.map (· ++ parts) := by
  unfold finish? add
  split <;> simp

theorem readAll?_pieces (r : Reader) (cs : List Char) :
    r.readAll? ((Text.pieces '\n' cs).map Text.trim) =
      r.readAll? ((Text.lines cs).map Text.trim) := by
  obtain ⟨tail, htail, hpieces⟩ := Text.trim_lines_pieces cs
  rw [hpieces, readAll?_append]
  rcases htail with rfl | rfl
  · simp [readAll?]
  · simp [readAll?_singleton, read?_silent]

theorem read?_eq_start {r : Reader} {content : List Char} (h : r.read? content = some start) :
    r = start ∧ (isComment content || content.isEmpty) = true := by
  unfold read? at h
  split at h
  · next hsilent => exact ⟨Option.some.inj h, hsilent⟩
  · split at h
    · unfold leave? at h
      split at h <;> simp [start] at h
    · split at h <;> simp [start, enter, add] at h

/-- Nothing is read of lines if and only if each of them is a comment or blank. -/
theorem readAll?_eq_start_iff {r : Reader} {lines : List (List Char)} :
    r.readAll? lines = some start ↔
      r = start ∧ ∀ content ∈ lines, (isComment content || content.isEmpty) = true := by
  induction lines generalizing r with
  | nil => simp [readAll?]
  | cons content lines ih =>
    rw [readAll?_cons, List.forall_mem_cons]
    constructor
    · intro h
      obtain ⟨next, hnext, hrest⟩ := Option.bind_eq_some_iff.mp h
      obtain ⟨rfl, hlines⟩ := ih.mp hrest
      obtain ⟨hr, hcontent⟩ := read?_eq_start hnext
      exact ⟨hr, hcontent, hlines⟩
    · rintro ⟨rfl, hcontent, hlines⟩
      rw [read?_silent _ hcontent]
      exact ih.mpr ⟨rfl, hlines⟩

theorem finish?_eq_nil {r : Reader} : r.finish? = some [] ↔ r = start := by
  obtain ⟨current, outer⟩ := r
  simp [finish?, start, and_comm]

end Reader

end Outline

def outline? (text : String) : Option (List Outline) :=
  (Outline.Reader.start.readAll? ((Text.lines text.toList).map Text.trim)).bind (·.finish?)

theorem outline?_eq (text : String) : outline? text =
    (Outline.Reader.start.readAll? ((physicalLines text).map Text.trim)).bind (·.finish?) := by
  rw [outline?, physicalLines, Outline.Reader.readAll?_pieces]

/-- Every line of a text is a comment or blank. -/
def IsSilent (text : String) : Prop :=
  ∀ line ∈ physicalLines text, IsComment line ∨ Text.trim line = []

instance (text : String) : Decidable (IsSilent text) :=
  inferInstanceAs (Decidable (∀ line ∈ physicalLines text, IsComment line ∨ Text.trim line = []))

theorem isSilent_iff {text : String} : IsSilent text ↔
    Outline.Reader.start.readAll? ((physicalLines text).map Text.trim) = some .start := by
  rw [Outline.Reader.readAll?_eq_start_iff, List.forall_mem_map]
  simp only [IsSilent, Bool.or_eq_true, isComment_trim_iff, List.isEmpty_iff, true_and]

theorem outline?_eq_nil_iff {text : String} : outline? text = some [] ↔ IsSilent text := by
  rw [outline?_eq, Option.bind_eq_some_iff, isSilent_iff]
  simp only [Outline.Reader.finish?_eq_nil, exists_eq_right]

theorem outline?_append_of_isSilent {text : String} (h : IsSilent text) (rest : String) :
    outline? (text ++ "\n" ++ rest) = outline? rest := by
  rw [outline?_eq, outline?_eq, physicalLines_append, List.map_append,
    Outline.Reader.readAll?_append, isSilent_iff.mp h, Option.bind_some]

theorem isSilent_of_not_mem {text : String} (hn : '\n' ∉ text.toList)
    (h : ['/', '/'] <+: text.toList) : IsSilent text := by
  rw [IsSilent, physicalLines_of_not_mem hn, List.forall_mem_singleton]
  obtain ⟨rest, hrest⟩ := h
  left
  rw [IsComment, ← hrest]
  exact ⟨rest, (trimStart_slashes rest).symm⟩

namespace Code

mutual

def outline : Code → List Outline
  | blank => []
  | line text =>
    if isComment (shown text) || (shown text).isEmpty then [] else [.line (shown text)]
  | block opening body _ => [.block (shown opening) (outlineOf body)]

def outlineOf : List Code → List Outline
  | [] => []
  | c :: rest => c.outline ++ outlineOf rest

end

theorem outlineOf_eq (cs : List Code) : outlineOf cs = cs.flatMap outline := by
  induction cs with
  | nil => rfl
  | cons c cs ih => simp [outlineOf, ih]

theorem outlineOf_append (cs ds : List Code) :
    outlineOf (cs ++ ds) = outlineOf cs ++ outlineOf ds := by
  simp [outlineOf_eq]

mutual

theorem readAll?_lines (indent : Nat) (c : Code) (hc : c.Shaped) (r : Outline.Reader) :
    r.readAll? ((c.lines indent).map Line.content) = some (r.add c.outline) := by
  match c with
  | blank => exact (r.readAll?_singleton []).trans (r.read?_silent rfl)
  | line text =>
    rw [lines, List.map_singleton, r.readAll?_singleton, outline, Line.content]
    by_cases hsilent : (isComment (shown text) || (shown text).isEmpty) = true
    · rw [if_pos hsilent, r.read?_silent hsilent, r.add_nil]
    · rw [Bool.not_eq_true] at hsilent
      obtain ⟨hclose, hopen⟩ := hc.2.resolve_left (by simp_all)
      rw [if_neg (by simp [hsilent]), r.read?_line hsilent hclose hopen]
  | block opening body closing =>
    obtain ⟨⟨-, hcomment, hclose, hopen⟩, ⟨-, hcomment', hclose'⟩, hbody⟩ := hc
    simp only [lines, List.cons_append, List.map_cons, List.map_append, List.map_nil, Line.content,
      r.readAll?_cons, r.read?_opening hcomment hclose hopen, Option.bind_some,
      Outline.Reader.readAll?_append, readAll?_linesOf (indent + 1) body hbody,
      Outline.Reader.readAll?_singleton, Outline.Reader.read?_closing _ hcomment' hclose',
      Outline.Reader.leave?_enter, outline]

theorem readAll?_linesOf (indent : Nat) (cs : List Code) (hcs : ShapedAll cs)
    (r : Outline.Reader) :
    r.readAll? ((linesOf indent cs).map Line.content) = some (r.add (outlineOf cs)) := by
  match cs with
  | [] => rfl
  | c :: rest =>
    rw [linesOf, List.map_append, r.readAll?_append, readAll?_lines indent c hcs.1 r,
      Option.bind_some, readAll?_linesOf indent rest hcs.2, Outline.Reader.add_add, outlineOf]

end

theorem readAll?_text (indent : Nat) {cs : List Code} (hcs : ShapedAll cs) (r : Outline.Reader) :
    r.readAll? ((Text.lines ((linesOf indent cs).flatMap Line.chars)).map Text.trim) =
      some (r.add (outlineOf cs)) := by
  rw [map_trim_lines _ (oneLine_of_shapedAll indent cs hcs), readAll?_linesOf indent cs hcs]

/-- Code that is written below a text is read below it. -/
theorem outline?_append_render (text : String) {cs : List Code} (hcs : ShapedAll cs) :
    outline? (text ++ "\n" ++ render cs) = (outline? text).map (· ++ outlineOf cs) := by
  have hcode (r : Outline.Reader) :
      r.readAll? ((physicalLines (render cs)).map Text.trim) = some (r.add (outlineOf cs)) := by
    rw [physicalLines, Outline.Reader.readAll?_pieces, render, String.toList_ofList,
      readAll?_text 0 hcs]
  rw [outline?_eq, outline?_eq, physicalLines_append, List.map_append,
    Outline.Reader.readAll?_append, Option.bind_assoc, Option.map_bind]
  simp only [hcode, Option.bind_some, Outline.Reader.finish?_add, Function.comp_def]

theorem outline?_linesOf (indent : Nat) {cs : List Code} (hcs : ShapedAll cs) :
    outline? (String.ofList ((linesOf indent cs).flatMap Line.chars)) = some (outlineOf cs) := by
  rw [outline?, String.toList_ofList, readAll?_text indent hcs]
  simp [Outline.Reader.add, Outline.Reader.start, Outline.Reader.finish?]

theorem outline?_render {cs : List Code} (hcs : ShapedAll cs) :
    outline? (render cs) = some (outlineOf cs) :=
  outline?_linesOf 0 hcs

end Code

end SignalTree.Source
