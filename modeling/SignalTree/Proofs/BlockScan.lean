import Mathlib.Data.List.Nodup
import SignalTree.Proofs.Lines

/-!
Names that a source text declares twice in one block. The scan reads a text line
by line and keeps the blocks that are open; it knows nothing of the code that the
text was written from. Written code keeps the scan balanced, and the names it
finds twice are those that repeat in a block of the code (`scan_linesOf`).
-/
namespace SignalTree.Source

def isComment (line : List Char) : Bool := ['/', '/'].isPrefixOf line

/-- A line that begins, after its indentation, with two slashes. -/
def IsComment (line : List Char) : Prop := ['/', '/'] <+: Text.trimStart line

instance (line : List Char) : Decidable (IsComment line) :=
  inferInstanceAs (Decidable (['/', '/'] <+: Text.trimStart line))

theorem trimStart_slashes (rest : List Char) :
    Text.trimStart ('/' :: '/' :: rest) = '/' :: '/' :: rest := by
  have hslash : Text.isBlank '/' = false := by decide
  exact Text.trimStart_of_head? (by simpa using hslash)

theorem isComment_trim (rest : List Char) : isComment (Text.trim ('/' :: '/' :: rest)) = true := by
  have hslash : Text.isBlank '/' = false := by decide
  rw [Text.trim, trimStart_slashes, Text.trimEnd, List.reverse_cons, List.reverse_cons,
    List.append_assoc, List.dropWhile_append]
  split
  · simp [hslash, isComment]
  · simp [isComment]

theorem isComment_trim_iff {line : List Char} :
    isComment (Text.trim line) = true ↔ IsComment line := by
  rw [isComment, List.isPrefixOf_iff_prefix, IsComment]
  constructor
  · exact fun h => h.trans (Text.trimEnd_isPrefix_self _)
  · rintro ⟨rest, hrest⟩
    have hcomment := isComment_trim rest
    rw [isComment, List.isPrefixOf_iff_prefix, Text.trim, trimStart_slashes] at hcomment
    rwa [Text.trim, ← hrest]

def closes (line : List Char) : Bool := line.head? == some '}' || line.head? == some ']'

def opens (line : List Char) : Bool := line.getLast? == some '{' || line.getLast? == some '['

def structWord : List Char := "pub struct ".toList

def moduleWord : List Char := "pub mod ".toList

def isStructLine (line : List Char) : Bool := structWord.isPrefixOf line

def itemName? (line : List Char) : Option (List Char) :=
  (Text.stripPrefix? structWord line <|> Text.stripPrefix? moduleWord line).map
    (·.takeWhile fun c => c != ' ' && c != ';')

def fieldName? (line : List Char) : Option (List Char) :=
  ((Text.stripPrefix? "pub ".toList line).bind (Text.splitOnce? ':')).map Prod.fst

def declaredName? (inStruct : Bool) (line : List Char) : Option (List Char) :=
  itemName? line <|> if inStruct then fieldName? line else none

structure Block where
  isStruct : Bool
  names : List (List Char)

/-- The block under way, those around it from the inside out, and the names that
were declared twice in one block. -/
structure Scan where
  current : Block
  outer : List Block
  repeated : List (List Char)

namespace Scan

def start : Scan := ⟨⟨false, []⟩, [], []⟩

def declare (s : Scan) (name : List Char) : Scan :=
  if name ∈ s.current.names then { s with repeated := name :: s.repeated }
  else { s with current := { s.current with names := name :: s.current.names } }

def note (s : Scan) (name? : Option (List Char)) : Scan := name?.elim s s.declare

def enter (s : Scan) (isStruct : Bool) : Scan :=
  { s with current := ⟨isStruct, []⟩, outer := s.current :: s.outer }

def leave? (s : Scan) : Option Scan :=
  match s.outer with
  | [] => none
  | block :: outer => some { s with current := block, outer }

def read? (s : Scan) (line : List Char) : Option Scan :=
  if isComment line then some s
  else if closes line then s.leave?
  else
    let noted := s.note (declaredName? s.current.isStruct line)
    some (if opens line then noted.enter (isStructLine line) else noted)

def readAll? (s : Scan) (lines : List (List Char)) : Option Scan := lines.foldlM read? s

end Scan

def scan? (text : String) : Option Scan :=
  Scan.start.readAll? ((Text.lines text.toList).map Text.trim)

/-- Every block that a text opens is closed, and nothing else is. -/
def IsBalanced (text : String) : Prop := ∃ s, scan? text = some s ∧ s.outer = []

/-- No block declares a name twice. -/
def DeclaresOnce (text : String) : Prop := ∃ s, scan? text = some s ∧ s.outer = [] ∧ s.repeated = []

/-! The same names, found in code. -/

namespace Code

abbrev shown (text : String) : List Char := Text.trim text.toList

mutual

/-- Lines stay on one line and blocks look like blocks. -/
def Shaped : Code → Prop
  | blank => True
  | line text => '\n' ∉ text.toList ∧
    (isComment (shown text) = true ∨ closes (shown text) = false ∧ opens (shown text) = false)
  | block opening body closing =>
    ('\n' ∉ opening.toList ∧ isComment (shown opening) = false ∧ closes (shown opening) = false ∧
      opens (shown opening) = true) ∧
    ('\n' ∉ closing.toList ∧ isComment (shown closing) = false ∧ closes (shown closing) = true) ∧
    ShapedAll body

def ShapedAll : List Code → Prop
  | [] => True
  | c :: rest => c.Shaped ∧ ShapedAll rest

end

theorem shapedAll_iff {cs : List Code} : ShapedAll cs ↔ ∀ c ∈ cs, c.Shaped := by
  induction cs with
  | nil => simp [ShapedAll]
  | cons c cs ih => simp [ShapedAll, ih]

def declared (inStruct : Bool) : Code → List (List Char)
  | blank => []
  | line text =>
    if isComment (shown text) then [] else (declaredName? inStruct (shown text)).toList
  | block opening _ _ => (declaredName? inStruct (shown opening)).toList

mutual

def OnceInside : Code → Prop
  | blank => True
  | line _ => True
  | block opening body _ =>
    (body.flatMap (declared (isStructLine (shown opening)))).Nodup ∧ OnceInsideAll body

def OnceInsideAll : List Code → Prop
  | [] => True
  | c :: rest => c.OnceInside ∧ OnceInsideAll rest

end

theorem onceInsideAll_iff {cs : List Code} : OnceInsideAll cs ↔ ∀ c ∈ cs, c.OnceInside := by
  induction cs with
  | nil => simp [OnceInsideAll]
  | cons c cs ih => simp [OnceInsideAll, ih]

mutual

theorem oneLine_of_shaped (indent : Nat) (c : Code) (hc : c.Shaped) :
    ∀ l ∈ c.lines indent, l.OneLine := by
  match c with
  | blank => simp [lines, Line.OneLine]
  | line text =>
    simp only [lines, List.mem_singleton]
    rintro _ rfl
    exact hc.1
  | block opening body closing =>
    obtain ⟨ho, hcl, hb⟩ := hc
    intro l hl
    simp only [lines, List.cons_append, List.mem_cons, List.mem_append, List.not_mem_nil,
      or_false] at hl
    rcases hl with rfl | hl | rfl
    · exact ho.1
    · exact oneLine_of_shapedAll (indent + 1) body hb l hl
    · exact hcl.1

theorem oneLine_of_shapedAll (indent : Nat) (cs : List Code) (hcs : ShapedAll cs) :
    ∀ l ∈ linesOf indent cs, l.OneLine := by
  match cs with
  | [] => simp [linesOf]
  | c :: rest =>
    intro l hl
    rcases List.mem_append.mp hl with hl | hl
    · exact oneLine_of_shaped indent c hcs.1 l hl
    · exact oneLine_of_shapedAll indent rest hcs.2 l hl

end

end Code

namespace Scan

/-- The scan went on from one state to another over names declared in the block under
way. It found no name twice if they are new and distinct, and `once` holds of all that
was closed in between. -/
structure Finds (s s' : Scan) (names : List (List Char)) (once : Prop) : Prop where
  isStruct : s'.current.isStruct = s.current.isStruct
  outer : s'.outer = s.outer
  known : ∀ n, n ∈ s'.current.names ↔ n ∈ s.current.names ∨ n ∈ names
  repeated : s'.repeated = [] ↔
    s.repeated = [] ∧ (∀ n ∈ names, n ∉ s.current.names) ∧ names.Nodup ∧ once

theorem Finds.refl (s : Scan) : Finds s s [] True := by
  constructor <;> simp

theorem Finds.trans {s s₁ s₂ : Scan} {ns ms : List (List Char)} {p q : Prop}
    (h₁ : Finds s s₁ ns p) (h₂ : Finds s₁ s₂ ms q) : Finds s s₂ (ns ++ ms) (p ∧ q) where
  isStruct := h₂.isStruct.trans h₁.isStruct
  outer := h₂.outer.trans h₁.outer
  known n := by rw [h₂.known, h₁.known, List.mem_append, or_assoc]
  repeated := by
    rw [h₂.repeated, h₁.repeated, List.nodup_append']
    simp only [h₁.known, List.mem_append, List.disjoint_left]
    grind

theorem finds_declare (s : Scan) (name : List Char) : Finds s (s.declare name) [name] True := by
  unfold declare
  split
  · next hmem => constructor <;> simp [hmem]
  · next hmem => constructor <;> simp [hmem, or_comm]

theorem finds_note (s : Scan) (name? : Option (List Char)) :
    Finds s (s.note name?) name?.toList True := by
  cases name? with
  | none => exact .refl s
  | some name => exact finds_declare s name

theorem read?_comment (s : Scan) {line : List Char} (h : isComment line = true) :
    s.read? line = some s := by
  simp [read?, h]

theorem read?_closing (s : Scan) {line : List Char} (h : isComment line = false)
    (hc : closes line = true) : s.read? line = s.leave? := by
  simp [read?, h, hc]

theorem read?_opening (s : Scan) {line : List Char} (h : isComment line = false)
    (hc : closes line = false) (ho : opens line = true) :
    s.read? line =
      some ((s.note (declaredName? s.current.isStruct line)).enter (isStructLine line)) := by
  simp [read?, h, hc, ho]

theorem read?_plain (s : Scan) {line : List Char} (h : isComment line = false)
    (hc : closes line = false) (ho : opens line = false) :
    s.read? line = some (s.note (declaredName? s.current.isStruct line)) := by
  simp [read?, h, hc, ho]

theorem read?_nil (s : Scan) : s.read? [] = some s := by
  refine (read?_plain s rfl rfl rfl).trans ?_
  cases s.current.isStruct <;> rfl

theorem readAll?_append (s : Scan) (xs ys : List (List Char)) :
    s.readAll? (xs ++ ys) = (s.readAll? xs).bind (·.readAll? ys) := by
  simp only [readAll?, List.foldlM_append]
  rfl

theorem readAll?_cons (s : Scan) (line : List Char) (lines : List (List Char)) :
    s.readAll? (line :: lines) = (s.read? line).bind (·.readAll? lines) := by
  simp only [readAll?, List.foldlM_cons]
  rfl

theorem leave?_of_finds_enter {s s' : Scan} {isStruct : Bool} {names : List (List Char)}
    {once : Prop} (h : Finds (s.enter isStruct) s' names once) :
    ∃ s'', s'.leave? = some s'' ∧ Finds s s'' [] (names.Nodup ∧ once) := by
  have houter : s'.outer = s.current :: s.outer := h.outer
  refine ⟨{ s' with current := s.current, outer := s.outer }, by simp [leave?, houter], ?_⟩
  have hrep := h.repeated
  constructor
  · rfl
  · rfl
  · simp
  · simpa [enter] using hrep

end Scan

namespace Code

mutual

theorem scan_lines (indent : Nat) (c : Code) (hc : c.Shaped) (s : Scan) :
    ∃ s', s.readAll? ((c.lines indent).map Line.content) = some s' ∧
      s.Finds s' (c.declared s.current.isStruct) c.OnceInside := by
  match c with
  | blank => exact ⟨s, by simp [lines, Line.content, Scan.readAll?, s.read?_nil], .refl s⟩
  | line text =>
    by_cases hcom : isComment (shown text) = true
    · refine ⟨s, ?_, ?_⟩
      · simp [lines, Line.content, Scan.readAll?, s.read?_comment hcom]
      · simpa [declared, hcom, OnceInside] using Scan.Finds.refl s
    · obtain ⟨hclose, hopen⟩ := hc.2.resolve_left hcom
      rw [Bool.not_eq_true] at hcom
      refine ⟨s.note (declaredName? s.current.isStruct (shown text)), ?_, ?_⟩
      · simp [lines, Line.content, Scan.readAll?, s.read?_plain hcom hclose hopen]
      · simpa [declared, hcom, OnceInside] using s.finds_note _
  | block opening body closing =>
    obtain ⟨⟨-, hcom, hclose, hopen⟩, ⟨-, hcom', hclose'⟩, hbody⟩ := hc
    obtain ⟨s₂, hread, hfinds⟩ := scan_linesOf (indent + 1) body hbody
      ((s.note (declaredName? s.current.isStruct (shown opening))).enter
        (isStructLine (shown opening)))
    obtain ⟨s₃, hleave, htail⟩ := Scan.leave?_of_finds_enter hfinds
    refine ⟨s₃, ?_, ?_⟩
    · simp only [lines, List.cons_append, List.map_cons, List.map_append, List.map_nil,
        Scan.readAll?_cons, Scan.readAll?_append, Line.content,
        s.read?_opening hcom hclose hopen, Option.bind_some, hread, s₂.read?_closing hcom' hclose',
        hleave]
      rfl
    · have hall := (s.finds_note (declaredName? s.current.isStruct (shown opening))).trans htail
      simpa [declared, OnceInside, Scan.enter] using hall

theorem scan_linesOf (indent : Nat) (cs : List Code) (hcs : ShapedAll cs) (s : Scan) :
    ∃ s', s.readAll? ((linesOf indent cs).map Line.content) = some s' ∧
      s.Finds s' (cs.flatMap (declared s.current.isStruct)) (OnceInsideAll cs) := by
  match cs with
  | [] => exact ⟨s, rfl, .refl s⟩
  | c :: rest =>
    obtain ⟨s₁, hread₁, hfinds₁⟩ := scan_lines indent c hcs.1 s
    obtain ⟨s₂, hread₂, hfinds₂⟩ := scan_linesOf indent rest hcs.2 s₁
    refine ⟨s₂, ?_, ?_⟩
    · simp [linesOf, Scan.readAll?_append, hread₁, hread₂]
    · rw [hfinds₁.isStruct] at hfinds₂
      simpa [OnceInsideAll] using hfinds₁.trans hfinds₂

end

/-- The scan of a written text finds what repeats in the code. -/
theorem scan?_render {cs : List Code} (hcs : ShapedAll cs) :
    ∃ s, scan? (render cs) = some s ∧ s.outer = [] ∧
      (s.repeated = [] ↔ (cs.flatMap (declared false)).Nodup ∧ OnceInsideAll cs) := by
  obtain ⟨s, hread, hfinds⟩ := scan_linesOf 0 cs hcs .start
  refine ⟨s, ?_, hfinds.outer, ?_⟩
  · rw [← hread, scan?, render, String.toList_ofList,
      map_trim_lines _ (oneLine_of_shapedAll 0 cs hcs)]
  · simpa [Scan.start] using hfinds.repeated

end Code

end SignalTree.Source
