import SignalTree.Text.Basic

/-!
Dotted paths of signals. A path is never empty and its segments hold no dot, so
the text of a path and its segments determine each other (`Path.ofText_text`,
`Path.text_ofText`).
-/
namespace SignalTree

/-- One step of a path. Every text without a dot is a segment, the empty text
included: definitions may spell `A..B`. -/
structure Segment where
  text : String
  dotFree : '.' ∉ text.toList
deriving DecidableEq

namespace Segment

@[ext] theorem ext {s t : Segment} (h : s.text = t.text) : s = t := by
  cases s; cases t; cases h; rfl

def empty : Segment := ⟨"", by simp⟩

@[simp] theorem toList_empty : empty.text.toList = [] := by simp [empty]

def isEmpty (s : Segment) : Bool := s.text.isEmpty

def ofText? (text : String) : Option Segment :=
  if h : '.' ∉ text.toList then some ⟨text, h⟩ else none

/-- Segments are ordered by code points, which is also the order of their bytes. -/
protected def le (s t : Segment) : Bool := s.text ≤ t.text

end Segment

/-- A path grows at its end: the parent is the structural predecessor. -/
inductive Path where
  | root (segment : Segment)
  | child (parent : Path) (segment : Segment)

namespace Path

def decEq : (p q : Path) → Decidable (p = q)
  | root s, root t => decidable_of_iff (s = t) (by simp)
  | root _, child .. => isFalse (by simp)
  | child .., root _ => isFalse (by simp)
  | child p s, child q t =>
    if h : s = t then
      match decEq p q with
      | isTrue e => isTrue (by simp [h, e])
      | isFalse ne => isFalse (by simp [ne])
    else isFalse (by simp [h])

instance : DecidableEq Path := decEq

def leaf : Path → Segment
  | root s => s
  | child _ s => s

def parent? : Path → Option Path
  | root _ => none
  | child p _ => some p

/-- Proper prefixes, nearest first. -/
def ancestors : Path → List Path
  | root _ => []
  | child p _ => p :: p.ancestors

def depth : Path → Nat
  | root _ => 0
  | child p _ => p.depth + 1

def segments : Path → List Segment
  | root s => [s]
  | child p s => p.segments ++ [s]

protected def append (p : Path) : Path → Path
  | root s => child p s
  | child q s => child (p.append q) s

instance : Append Path := ⟨Path.append⟩

/-- The ancestor so many steps above, or the root of the path. -/
def up : (steps : Nat) → Path → Path
  | steps + 1, child p _ => up steps p
  | _, p => p

/-- The prefix of a path one step below `scope`, the path itself when `scope` is
its parent. -/
def stepBelow? (scope p : Path) : Option Path :=
  let step := p.up (p.depth - (scope.depth + 1))
  if step.parent? = some scope then some step else none

def text : Path → String
  | root s => s.text
  | child p s => p.text ++ "." ++ s.text

def ofSegments (first : Segment) (rest : List Segment) : Path :=
  rest.foldl child (root first)

def segmentsOf (cs : List Char) : List Segment :=
  (Text.pieces '.' cs).attach.map fun ⟨piece, h⟩ =>
    ⟨String.ofList piece, by simpa using Text.not_mem_pieces h⟩

def ofText (text : String) : Path :=
  match segmentsOf text.toList with
  | [] => root .empty
  | first :: rest => ofSegments first rest

instance : ToString Path := ⟨text⟩

/-! Segments and text are two views of one path. -/

@[simp] theorem segments_root (s : Segment) : (root s).segments = [s] := rfl

@[simp] theorem segments_child (p : Path) (s : Segment) :
    (child p s).segments = p.segments ++ [s] := rfl

@[simp] theorem segments_append (p q : Path) :
    (p ++ q).segments = p.segments ++ q.segments := by
  change (p.append q).segments = _
  induction q with
  | root s => rfl
  | child q s ih => simp [Path.append, ih]

theorem segments_foldl_child (p : Path) (rest : List Segment) :
    (rest.foldl child p).segments = p.segments ++ rest := by
  induction rest generalizing p with
  | nil => simp
  | cons s rest ih => simp [ih]

@[simp] theorem segments_ofSegments (first : Segment) (rest : List Segment) :
    (ofSegments first rest).segments = first :: rest := by
  simp [ofSegments, segments_foldl_child]

theorem segments_ne_nil (p : Path) : p.segments ≠ [] := by
  cases p <;> simp

theorem segments_injective {p q : Path} (h : p.segments = q.segments) : p = q := by
  induction p generalizing q with
  | root s =>
    cases q with
    | root t => simpa using h
    | child q t =>
      have := congrArg List.length h
      simp [segments_ne_nil] at this
  | child p s ih =>
    cases q with
    | root t =>
      have := congrArg List.length h
      simp [segments_ne_nil] at this
    | child q t =>
      simp only [segments_child] at h
      obtain ⟨hp, hs⟩ := List.append_inj' h rfl
      rw [ih hp]
      simpa using hs

def joinChars (first : Segment) : List Segment → List Char
  | [] => first.text.toList
  | s :: rest => first.text.toList ++ '.' :: joinChars s rest

theorem map_segmentsOf (cs : List Char) :
    (segmentsOf cs).map (·.text.toList) = Text.pieces '.' cs := by
  simp [segmentsOf, Function.comp_def]

theorem segmentsOf_ne_nil (cs : List Char) : segmentsOf cs ≠ [] := by
  simp [segmentsOf, Text.pieces_ne_nil]

theorem eq_of_map_toList {ss ts : List Segment}
    (h : ss.map (·.text.toList) = ts.map (·.text.toList)) : ss = ts := by
  refine (List.map_inj_right fun s t e => ?_).mp h
  exact Segment.ext (String.toList_inj.mp e)

theorem segmentsOf_append (s : Segment) (cs : List Char) :
    segmentsOf (s.text.toList ++ '.' :: cs) = s :: segmentsOf cs := by
  apply eq_of_map_toList
  rw [map_segmentsOf, Text.pieces_append s.dotFree, List.map_cons, map_segmentsOf]

theorem segmentsOf_text (s : Segment) : segmentsOf s.text.toList = [s] := by
  apply eq_of_map_toList
  rw [map_segmentsOf, Text.pieces_of_not_mem s.dotFree]
  rfl

theorem segmentsOf_joinChars (first : Segment) (rest : List Segment) :
    segmentsOf (joinChars first rest) = first :: rest := by
  induction rest generalizing first with
  | nil => simp [joinChars, segmentsOf_text]
  | cons s rest ih => simp [joinChars, segmentsOf_append, ih]

theorem joinChars_eq (first : Segment) (rest : List Segment) :
    joinChars first rest = ['.'].intercalate ((first :: rest).map (·.text.toList)) := by
  induction rest generalizing first with
  | nil => simp [joinChars]
  | cons s rest ih => simp [joinChars, ih, List.intercalate_cons_cons]

theorem joinChars_segmentsOf {cs : List Char} {first : Segment} {rest : List Segment}
    (h : segmentsOf cs = first :: rest) : joinChars first rest = cs := by
  rw [joinChars_eq, ← h, map_segmentsOf, Text.intercalate_pieces]

theorem ofText_eq {s : String} {first : Segment} {rest : List Segment}
    (h : segmentsOf s.toList = first :: rest) : ofText s = ofSegments first rest := by
  simp [ofText, h]

theorem joinChars_concat (first : Segment) (rest : List Segment) (s : Segment) :
    joinChars first (rest ++ [s]) = joinChars first rest ++ '.' :: s.text.toList := by
  induction rest generalizing first with
  | nil => simp [joinChars]
  | cons t rest ih => simp [joinChars, ih]

theorem toList_text {p : Path} {first : Segment} {rest : List Segment}
    (h : p.segments = first :: rest) : p.text.toList = joinChars first rest := by
  induction p generalizing first rest with
  | root s =>
    simp only [segments_root, List.cons.injEq] at h
    obtain ⟨rfl, rfl⟩ := h
    simp [text, joinChars]
  | child p s ih =>
    cases hp : p.segments with
    | nil => exact absurd hp p.segments_ne_nil
    | cons t more =>
      simp only [segments_child, hp, List.cons_append, List.cons.injEq] at h
      obtain ⟨rfl, rfl⟩ := h
      simp [text, ih hp, joinChars_concat]

@[simp] theorem text_ofText (s : String) : (ofText s).text = s := by
  obtain ⟨first, rest, h⟩ := List.exists_cons_of_ne_nil (segmentsOf_ne_nil s.toList)
  apply String.toList_inj.mp
  rw [ofText_eq h, toList_text (segments_ofSegments _ _), joinChars_segmentsOf h]

@[simp] theorem ofText_text (p : Path) : ofText p.text = p := by
  apply segments_injective
  cases hp : p.segments with
  | nil => exact absurd hp p.segments_ne_nil
  | cons first rest =>
    have h : segmentsOf p.text.toList = first :: rest := by
      rw [toList_text hp, segmentsOf_joinChars]
    rw [ofText_eq h, segments_ofSegments]

/-! Steps between a path and its prefixes. -/

theorem depth_lt_of_mem_ancestors {p q : Path} (h : q ∈ p.ancestors) : q.depth < p.depth := by
  induction p with
  | root s => simp [ancestors] at h
  | child p s ih =>
    rcases List.mem_cons.mp h with rfl | h
    · simp [depth]
    · exact Nat.lt_succ_of_lt (ih h)

theorem up_mem (steps : Nat) (p : Path) : p.up steps ∈ p :: p.ancestors := by
  induction p generalizing steps with
  | root s => cases steps <;> simp [up]
  | child p s ih =>
    cases steps with
    | zero => simp [up]
    | succ steps => exact List.mem_cons_of_mem _ (ih steps)

theorem eq_up_of_mem {p q : Path} (h : q ∈ p :: p.ancestors) : q = p.up (p.depth - q.depth) := by
  induction p with
  | root s => simp_all [ancestors, up]
  | child p s ih =>
    rcases List.mem_cons.mp h with rfl | h
    · simp [up]
    · have := depth_lt_of_mem_ancestors h
      rw [show (child p s).depth - q.depth = p.depth - q.depth + 1 by simp [depth] at *; omega]
      exact ih h

theorem depth_of_parent?_eq {p q : Path} (h : p.parent? = some q) : p.depth = q.depth + 1 := by
  cases p with
  | root s => simp [parent?] at h
  | child p s => simp [parent?] at h; simp [depth, h]

theorem stepBelow?_eq_some {scope p q : Path} :
    stepBelow? scope p = some q ↔ q.parent? = some scope ∧ q ∈ p :: p.ancestors := by
  simp only [stepBelow?, Option.ite_none_right_eq_some, Option.some.injEq]
  constructor
  · rintro ⟨h, rfl⟩
    exact ⟨h, up_mem _ _⟩
  · rintro ⟨h, hq⟩
    have e := eq_up_of_mem hq
    rw [depth_of_parent?_eq h] at e
    exact ⟨e ▸ h, e.symm⟩

theorem text_injective {p q : Path} (h : p.text = q.text) : p = q := by
  rw [← ofText_text p, h, ofText_text]

end Path

end SignalTree
