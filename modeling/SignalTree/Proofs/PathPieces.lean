import Mathlib.Data.List.Induction
import SignalTree.Workspace.Disk

/-!
Paths by their pieces. The place that a path names depends on the pieces that are names, so
joining a name to a path goes one place down (`pieces_join`) and the parent of a path one
place up (`parent?_spec`).
-/
namespace SignalTree

namespace Disk

@[simp] theorem placeOf_nil : placeOf [] = [] := rfl

@[simp] theorem placeOf_append (xs ys : List String) : placeOf (xs ++ ys) = placeOf xs ++ placeOf ys :=
  List.filter_append ..

theorem placeOf_cons (piece : String) (rest : List String) :
    placeOf (piece :: rest) = if isName piece then piece :: placeOf rest else placeOf rest :=
  List.filter_cons

theorem placeOf_concat {front : List String} {name : String} (h : isName name = true) :
    placeOf (front ++ [name]) = placeOf front ++ [name] := by
  rw [placeOf_append, placeOf_cons, if_pos h, placeOf_nil]

theorem placeOf_of_names {pieces : List String} (h : ∀ piece ∈ pieces, isName piece = true) :
    placeOf pieces = pieces :=
  List.filter_eq_self.mpr h

theorem isName_iff {piece : String} : isName piece = true ↔ piece ≠ "" ∧ piece ≠ "." := by
  simp [isName]

theorem dots_mem_placeOf {pieces : List String} : ".." ∈ placeOf pieces ↔ ".." ∈ pieces :=
  List.mem_filter.trans (and_iff_left (by decide))

end Disk

namespace FilePath

open Disk

variable {p : FilePath}

theorem pieces_ne_nil (p : FilePath) : p.pieces ≠ [] := by
  simpa [pieces] using Text.pieces_ne_nil '/' p.text.toList

theorem slash_not_mem {piece : String} (h : piece ∈ p.pieces) : '/' ∉ piece.toList := by
  obtain ⟨cs, hcs, rfl⟩ := List.mem_map.mp h
  rw [String.toList_ofList]
  exact Text.not_mem_pieces hcs

theorem not_mem_piece {c : Char} (hc : c ≠ '/') (h : c ∉ p.text.toList) {piece : String}
    (hpiece : piece ∈ p.pieces) : c ∉ piece.toList := by
  obtain ⟨cs, hcs, rfl⟩ := List.mem_map.mp hpiece
  rw [String.toList_ofList]
  exact fun hmem => h ((Text.mem_pieces_iff hc _).mp ⟨cs, hcs, hmem⟩)

theorem pieces_mk {pieces : List String} (hne : pieces ≠ [])
    (h : ∀ piece ∈ pieces, '/' ∉ piece.toList) : (mk ("/".intercalate pieces)).pieces = pieces := by
  have hpieces : Text.pieces '/' (['/'].intercalate (pieces.map String.toList)) = _ :=
    Text.pieces_intercalate '/' (by simpa using hne) (by simpa using h)
  rw [FilePath.pieces, String.toList_intercalate]
  change (Text.pieces '/' (['/'].intercalate (pieces.map String.toList))).map String.ofList = pieces
  rw [hpieces, List.map_map]
  simp [Function.comp_def]

theorem text_eq (p : FilePath) : p.text = "/".intercalate p.pieces := by
  have h := Text.intercalate_pieces '/' p.text.toList
  rw [← String.toList_inj, String.toList_intercalate, pieces, List.map_map]
  simpa [Function.comp_def] using h.symm

theorem pieces_append (front rest : String) :
    (mk (front ++ "/" ++ rest)).pieces = (mk front).pieces ++ (mk rest).pieces := by
  have htext : (front ++ "/" ++ rest).toList = front.toList ++ '/' :: rest.toList := by simp
  rw [pieces, htext, Text.pieces_append_cons, List.map_append]
  rfl

theorem pieces_of_not_mem {text : String} (h : '/' ∉ text.toList) : (mk text).pieces = [text] := by
  rw [pieces, Text.pieces_of_not_mem h]
  simp

theorem isAbsolute_iff : p.isAbsolute = true ↔ ∃ rest, rest ≠ [] ∧ p.pieces = "" :: rest := by
  rw [isAbsolute, pieces]
  cases p.text.toList with
  | nil => simp [Text.pieces]
  | cons c cs =>
    obtain ⟨first, more, hpieces⟩ := List.exists_cons_of_ne_nil (Text.pieces_ne_nil '/' cs)
    by_cases hc : c = '/'
    · simp [Text.pieces, hc, hpieces]
    · simp [Text.pieces, hc, hpieces]

theorem text_ne_empty {front : List String} {name : String} (hp : p.pieces = front ++ [name])
    (hname : isName name = true) : p.text ≠ "" := by
  intro htext
  have hpieces : p.pieces = [""] := by rw [pieces, htext]; rfl
  rw [hpieces] at hp
  cases front with
  | nil => exact (isName_iff.mp hname).1 (List.cons.inj hp).1.symm
  | cons piece front => simp at hp

private theorem isAbsolute_append {front : String} (h : front ≠ "") (rest : String) :
    (mk (front ++ rest)).isAbsolute = (mk front).isAbsolute := by
  rw [isAbsolute, isAbsolute, String.toList_append, List.head?_append]
  obtain ⟨c, cs, hcs⟩ := List.exists_cons_of_ne_nil (l := front.toList) (by simpa using h)
  rw [hcs]
  rfl

/-- What is joined to a path comes last, behind pieces that do not depend on it, and the whole
starts where the path does. -/
theorem pieces_join_relative (p : FilePath) : ∃ front, placeOf front = placeOf p.pieces ∧
    ∀ more : String, more.toList.head? ≠ some '/' →
      (p.join more).pieces = front ++ (mk more).pieces ∧
      (p.join more).isAbsolute = p.isAbsolute := by
  by_cases htext : p.text = ""
  · obtain ⟨text⟩ := p
    obtain rfl : text = "" := htext
    refine ⟨[], rfl, fun more h => ?_⟩
    rw [join, if_pos (.inr rfl)]
    exact ⟨rfl, by simpa [isAbsolute] using h⟩
  · by_cases hlast : p.text.toList.getLast? = some '/'
    · obtain ⟨before, hbefore⟩ := List.getLast?_eq_some_iff.mp hlast
      have hsplit : p.text = String.ofList before ++ "/" := by
        rw [← String.toList_inj, hbefore]
        simp
      refine ⟨(mk (String.ofList before)).pieces, ?_, fun more h => ?_⟩
      · have hpieces : p.pieces = (mk (String.ofList before)).pieces ++ [""] := by
          have := pieces_append (String.ofList before) ""
          rw [String.append_empty, ← hsplit] at this
          exact this
        rw [hpieces, placeOf_append]
        exact (List.append_nil _).symm
      · rw [join, if_neg (not_or.mpr ⟨h, htext⟩), if_pos hlast]
        exact ⟨by rw [hsplit, pieces_append], isAbsolute_append htext _⟩
    · refine ⟨p.pieces, rfl, fun more h => ?_⟩
      rw [join, if_neg (not_or.mpr ⟨h, htext⟩), if_neg hlast, pieces_append, String.append_assoc]
      exact ⟨rfl, isAbsolute_append htext _⟩

theorem pieces_join (p : FilePath) {name : String} (hname : '/' ∉ name.toList) :
    ∃ front, (p.join name).pieces = front ++ [name] ∧ placeOf front = placeOf p.pieces ∧
      (p.join name).isAbsolute = p.isAbsolute := by
  obtain ⟨front, hplace, hjoin⟩ := pieces_join_relative p
  obtain ⟨hpieces, habs⟩ := hjoin name fun h => hname (List.mem_of_mem_head? h)
  exact ⟨front, hpieces.trans (by rw [pieces_of_not_mem hname]), hplace, habs⟩

/-! Parents. -/

def trimSteps (pieces : List String) : List String :=
  (pieces.zipIdx.reverse.dropWhile (!isStep ·)).reverse.map Prod.fst

theorem trimSteps_concat (front : List String) (piece : String) : trimSteps (front ++ [piece]) =
    if isStep (piece, front.length) then front ++ [piece] else trimSteps front := by
  rw [trimSteps, List.zipIdx_append, List.reverse_append]
  simp only [List.zipIdx_singleton, List.reverse_singleton, List.singleton_append, Nat.zero_add,
    List.dropWhile_cons]
  cases hs : isStep (piece, front.length) with
  | true => simp
  | false => simp [trimSteps]

theorem isName_of_isStep_eq_false {piece : String} {position : Nat}
    (h : isStep (piece, position) = false) : isName piece = false := by
  rw [← Bool.not_eq_true, isName_iff]
  rintro ⟨hne, hdot⟩
  simp [isStep, hne, hdot] at h

theorem placeOf_trimSteps (pieces : List String) : placeOf (trimSteps pieces) = placeOf pieces := by
  induction pieces using List.reverseRecOn with
  | nil => rfl
  | append_singleton front piece ih =>
    rw [trimSteps_concat]
    split
    · rfl
    · next hs =>
      rw [Bool.not_eq_true] at hs
      rw [ih, placeOf_append, placeOf_cons, if_neg (by simp [isName_of_isStep_eq_false hs]),
        placeOf_nil, List.append_nil]

theorem trimSteps_prefix (pieces : List String) : trimSteps pieces <+: pieces := by
  induction pieces using List.reverseRecOn with
  | nil => exact List.prefix_refl _
  | append_singleton front piece ih =>
    rw [trimSteps_concat]
    split
    · exact List.prefix_refl _
    · exact ih.trans (List.prefix_append ..)

theorem trimSteps_eq_nil_or (pieces : List String) : trimSteps pieces = [] ∨
    ∃ front piece, trimSteps pieces = front ++ [piece] ∧ isStep (piece, front.length) = true := by
  induction pieces using List.reverseRecOn with
  | nil => exact .inl rfl
  | append_singleton front piece ih =>
    rw [trimSteps_concat]
    split
    · next hs => exact .inr ⟨front, piece, rfl, hs⟩
    · exact ih

theorem stepsBack_eq {front : List String} {name : String} (hp : p.pieces = front ++ [name])
    (hname : isName name = true) :
    p.stepsBack = (name, front.length) :: front.zipIdx.reverse := by
  obtain ⟨hne, hdot⟩ := isName_iff.mp hname
  have hstep : isStep (name, front.length) = true := by simp [isStep, hne, hdot]
  rw [stepsBack, hp, List.zipIdx_append, List.reverse_append]
  simp [hstep]

theorem name?_eq {front : List String} {name : String} (hp : p.pieces = front ++ [name])
    (hname : isName name = true) (hdots : name ≠ "..") : p.name? = some name := by
  rw [name?, stepsBack_eq hp hname]
  simp [(isName_iff.mp hname).2, hdots]

theorem parent?_eq {front : List String} {name : String} (hp : p.pieces = front ++ [name])
    (hname : isName name = true) : p.parent? =
      some ⟨if "/".intercalate (trimSteps front) == "" && p.isAbsolute then "/"
        else "/".intercalate (trimSteps front)⟩ := by
  rw [parent?, stepsBack_eq hp hname]
  rfl

/-- A path that ends in a name, or one that no parent has to be created for. -/
def IsPlain (p : FilePath) : Prop :=
  p = ⟨""⟩ ∨ p = here ∨ p = ⟨"/"⟩ ∨ ∃ front name, p.pieces = front ++ [name] ∧ isName name = true

theorem text_concat {front : List String} {name : String} (hp : p.pieces = front ++ [name])
    (hfront : front ≠ []) : p.text = "/".intercalate front ++ "/" ++ name := by
  rw [p.text_eq, hp, String.intercalate_append_of_ne_nil hfront (List.cons_ne_nil _ _),
    String.intercalate_singleton]

theorem length_pos {text : String} (h : text ≠ "") : 0 < text.length := by
  rw [Nat.pos_iff_ne_zero, ne_eq, String.length_eq_zero_iff]
  exact h

theorem parent?_spec {front : List String} {name : String} (hp : p.pieces = front ++ [name])
    (hname : isName name = true) : ∃ parent, p.parent? = some parent ∧ parent.IsPlain ∧
      parent.isAbsolute = p.isAbsolute ∧ placeOf parent.pieces = placeOf front ∧
      parent.text.length < p.text.length := by
  rw [parent?_eq hp hname]
  refine ⟨_, rfl, ?_⟩
  have hplace := placeOf_trimSteps front
  have hne := (isName_iff.mp hname).1
  rcases trimSteps_eq_nil_or front with hnil | ⟨init, piece, htrim, hstep⟩
  · rw [hnil] at hplace ⊢
    rw [String.intercalate_nil, BEq.rfl, Bool.true_and]
    cases habs : p.isAbsolute with
    | true =>
      have hfront : front ≠ [] := by
        rintro rfl
        obtain ⟨rest, -, hpieces⟩ := isAbsolute_iff.mp habs
        rw [hp] at hpieces
        exact hne (List.cons.inj hpieces).1
      refine ⟨.inr (.inr (.inl rfl)), rfl, hplace, ?_⟩
      rw [text_concat hp hfront]
      have := length_pos hne
      simp only [if_true, String.length_append]
      change 1 < _ + 1 + _
      omega
    | false => exact ⟨.inl rfl, rfl, hplace, length_pos (text_ne_empty hp hname)⟩
  · obtain ⟨more, hmore⟩ := trimSteps_prefix front
    have hpieces : p.pieces = trimSteps front ++ (more ++ [name]) := by
      rw [hp, ← List.append_assoc, hmore]
    have htrimne : trimSteps front ≠ [] := by simp [htrim]
    have hparent : (mk ("/".intercalate (trimSteps front))).pieces = trimSteps front :=
      pieces_mk htrimne fun q hq => slash_not_mem (by rw [hpieces]; exact List.mem_append_left _ hq)
    have hpiece : piece ≠ "" := by
      rintro rfl
      simp [isStep] at hstep
    have htext : "/".intercalate (trimSteps front) ≠ "" := by
      intro htext
      rw [htext, htrim] at hparent
      have hlast := congrArg List.getLast? hparent
      rw [List.getLast?_concat] at hlast
      exact hpiece (Option.some.inj hlast).symm
    rw [if_neg (by simp [htext])]
    refine ⟨?_, ?_, ?_, ?_⟩
    · by_cases hdot : piece = "."
      · right; left
        have hzero : init = [] := by simpa [isStep, hdot] using hstep
        rw [htrim, hzero, hdot]
        rfl
      · exact .inr (.inr (.inr ⟨init, piece, hparent.trans htrim, isName_iff.mpr ⟨hpiece, hdot⟩⟩))
    · rw [Bool.eq_iff_iff, isAbsolute_iff, isAbsolute_iff, hparent, hpieces, htrim]
      cases init <;> simp [hpiece]
    · rw [hparent, hplace]
    · rw [p.text_eq, hpieces, String.intercalate_append_of_ne_nil htrimne (by simp),
        String.length_append, String.length_append]
      change ("/".intercalate (trimSteps front)).length < _ + 1 + _
      omega

end FilePath

end SignalTree
