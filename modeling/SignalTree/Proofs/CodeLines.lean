import SignalTree.Proofs.BlockScan
import SignalTree.Proofs.Name
import SignalTree.Source.Item

/-!
Lines and blocks of code as the scan of a source text sees them: which of them keep
the blocks in order, and which of them declare a name.
-/
namespace SignalTree.Source

theorem structWord_eq : structWord = ['p', 'u', 'b', ' ', 's', 't', 'r', 'u', 'c', 't', ' '] := by
  cbv

theorem moduleWord_eq : moduleWord = ['p', 'u', 'b', ' ', 'm', 'o', 'd', ' '] := by cbv

theorem itemName?_of_ne {c : Char} (hc : c ≠ 'p') (rest : List Char) :
    itemName? (c :: rest) = none := by
  simp [itemName?, structWord_eq, moduleWord_eq, Text.stripPrefix?, hc.symm]

theorem isStructLine_of_itemName? {line : List Char} (h : itemName? line = none) :
    isStructLine line = false := by
  by_contra hne
  rw [Bool.not_eq_false, isStructLine, List.isPrefixOf_iff_prefix] at hne
  obtain ⟨rest, rfl⟩ := hne
  simp [itemName?, Text.stripPrefix?_eq_some.mpr rfl] at h

theorem stripPrefix?_of_colon {name : List Char} (rest word tail : List Char)
    (hspace : ' ' ∉ name) (hcolon : ':' ∉ word) :
    Text.stripPrefix? (word ++ ' ' :: tail) (name ++ ':' :: rest) = none := by
  by_contra hne
  obtain ⟨after, hafter⟩ := Option.ne_none_iff_exists'.mp hne
  rw [Text.stripPrefix?_eq_some, List.append_assoc, List.append_eq_append_iff] at hafter
  rcases hafter with ⟨more, rfl, hmore⟩ | ⟨more, rfl, hmore⟩
  · cases more with
    | nil => simp at hmore
    | cons c more =>
      obtain ⟨rfl, -⟩ := List.cons.inj hmore
      simp at hcolon
  · cases more with
    | nil => simp at hmore
    | cons c more =>
      obtain ⟨rfl, -⟩ := List.cons.inj hmore
      simp at hspace

theorem itemName?_of_colon {name : List Char} (hspace : ' ' ∉ name) (rest : List Char) :
    itemName? (name ++ ':' :: rest) = none := by
  have hstruct := stripPrefix?_of_colon rest ['p', 'u', 'b'] ['s', 't', 'r', 'u', 'c', 't', ' ']
    hspace (by decide)
  have hmodule := stripPrefix?_of_colon rest ['p', 'u', 'b'] ['m', 'o', 'd', ' '] hspace (by decide)
  rw [List.cons_append, List.cons_append, List.cons_append, List.nil_append] at hstruct hmodule
  rw [itemName?, structWord_eq, moduleWord_eq, hstruct, hmodule]
  rfl

theorem declaredName?_field {name : String} (hname : IsName name) (rest : List Char) :
    declaredName? true ('p' :: 'u' :: 'b' :: ' ' :: (name.toList ++ ':' :: rest)) =
      some name.toList := by
  have hspace := hname.not_mem (c := ' ') (by decide)
  have hcolon := hname.not_mem (c := ':') (by decide)
  have hstruct := stripPrefix?_of_colon rest ['s', 't', 'r', 'u', 'c', 't'] [] hspace (by decide)
  have hmodule := stripPrefix?_of_colon rest ['m', 'o', 'd'] [] hspace (by decide)
  have hsplit : Text.splitOnce? ':' (name.toList ++ ':' :: rest) = some (name.toList, rest) :=
    Text.splitOnce?_eq_some.mpr ⟨hcolon, rfl⟩
  simp [declaredName?, itemName?, fieldName?, structWord_eq, moduleWord_eq, Text.stripPrefix?,
    hsplit] at hstruct hmodule ⊢
  simp [hstruct, hmodule]

theorem takeWhile_name {name : String} (hname : IsName name) {c : Char} (hc : c = ' ' ∨ c = ';')
    (rest : List Char) :
    (name.toList ++ c :: rest).takeWhile (fun c => c != ' ' && c != ';') = name.toList := by
  rw [List.takeWhile_append_of_pos]
  · rcases hc with rfl | rfl <;> simp
  · intro d hd
    have hspace : d ≠ ' ' := fun e => hname.not_mem (by decide) (e ▸ hd)
    have hsemicolon : d ≠ ';' := fun e => hname.not_mem (by decide) (e ▸ hd)
    simp [hspace, hsemicolon]

theorem nodup_map_toList {names : List String} : (names.map String.toList).Nodup ↔ names.Nodup :=
  List.nodup_map_iff fun _ _ => String.toList_injective

namespace Code

def isStarter (c : Char) : Bool := !Text.isBlank c && c != '}' && c != ']' && c != '/'

def isEnder (c : Char) : Bool := !Text.isBlank c && c != '{' && c != '['

/-- A line of code that neither opens nor closes a block, without space around it. -/
structure IsPlain (text : String) : Prop where
  oneLine : '\n' ∉ text.toList
  starts : ∀ c ∈ text.toList.head?, isStarter c = true
  ends : ∀ c ∈ text.toList.getLast?, isEnder c = true

theorem isPlain_of {text : String} (first last : Char) (hn : '\n' ∉ text.toList)
    (hf : text.toList.head? = some first) (hl : text.toList.getLast? = some last)
    (hs : isStarter first = true) (he : isEnder last = true) : IsPlain text where
  oneLine := hn
  starts := by simpa [hf] using hs
  ends := by simpa [hl] using he

structure IsHead (text : String) : Prop where
  oneLine : '\n' ∉ text.toList
  starts : ∀ c ∈ text.toList.head?, isStarter c = true
  opens : opens text.toList = true

theorem shown_of_ends {text : String} (hs : ∀ c ∈ text.toList.head?, Text.isBlank c = false)
    (he : ∀ c ∈ text.toList.getLast?, Text.isBlank c = false) : shown text = text.toList :=
  Text.trim_of_ends hs he

theorem not_isBlank_of_isStarter {c : Char} (h : isStarter c = true) : Text.isBlank c = false := by
  simp only [isStarter, Bool.and_eq_true, Bool.not_eq_true'] at h
  exact h.1.1.1

theorem isComment_of_starts {cs : List Char} (h : ∀ c ∈ cs.head?, isStarter c = true) :
    isComment cs = false := by
  cases cs with
  | nil => rfl
  | cons c cs =>
    have hc := h c rfl
    simp only [isStarter, Bool.and_eq_true, bne_iff_ne] at hc
    simp [isComment, List.isPrefixOf, hc.2.symm]

theorem closes_of_starts {cs : List Char} (h : ∀ c ∈ cs.head?, isStarter c = true) :
    closes cs = false := by
  cases cs with
  | nil => rfl
  | cons c cs =>
    have hc := h c rfl
    simp only [isStarter, Bool.and_eq_true, bne_iff_ne] at hc
    simp [closes, hc.1.1.2, hc.1.2]

theorem isStarter_of_isName {name : String} (h : IsName name) (rest : List Char) :
    ∀ c ∈ (name.toList ++ ':' :: rest).head?, isStarter c = true := by
  intro c hc
  cases hcs : name.toList with
  | nil =>
    rw [hcs, List.nil_append, List.head?_cons, Option.mem_some] at hc
    subst hc
    decide
  | cons d ds =>
    have hd : isNameChar d = true := h d (by simp [hcs])
    rw [hcs, List.cons_append, List.head?_cons, Option.mem_some] at hc
    subst hc
    have hbrace : d ≠ '}' := by rintro rfl; exact absurd hd (by decide)
    have hbracket : d ≠ ']' := by rintro rfl; exact absurd hd (by decide)
    have hslash : d ≠ '/' := by rintro rfl; exact absurd hd (by decide)
    simp [isStarter, isBlank_of_isNameChar hd, hbrace, hbracket, hslash]

namespace IsPlain

variable {text : String}

theorem shown (h : IsPlain text) : Code.shown text = text.toList := by
  refine shown_of_ends (fun c hc => not_isBlank_of_isStarter (h.starts c hc)) fun c hc => ?_
  have he := h.ends c hc
  simp only [isEnder, Bool.and_eq_true, Bool.not_eq_true'] at he
  exact he.1.1

theorem opens (h : IsPlain text) : Source.opens text.toList = false := by
  unfold Source.opens
  cases hl : text.toList.getLast? with
  | none => rfl
  | some c =>
    have he := h.ends c hl
    simp only [isEnder, Bool.and_eq_true, bne_iff_ne] at he
    simp [he.1.2, he.2]

theorem shaped (h : IsPlain text) : (line text).Shaped := by
  refine ⟨h.oneLine, .inr ?_⟩
  rw [h.shown]
  exact ⟨closes_of_starts h.starts, h.opens⟩

theorem declared (h : IsPlain text) (inStruct : Bool) :
    (line text).declared inStruct = (declaredName? inStruct text.toList).toList := by
  simp [Code.declared, h.shown, isComment_of_starts h.starts]

end IsPlain

namespace IsHead

variable {text : String}

theorem shown (h : IsHead text) : Code.shown text = text.toList := by
  refine shown_of_ends (fun c hc => not_isBlank_of_isStarter (h.starts c hc)) fun c hc => ?_
  have hlast := h.opens
  rw [Source.opens, Option.mem_def.mp hc] at hlast
  simp only [Bool.or_eq_true, beq_iff_eq, Option.some.injEq] at hlast
  rcases hlast with rfl | rfl <;> decide

theorem shaped_block (h : IsHead text) {body : List Code} {closing : String}
    (hclosing : closing = "\x7d" ∨ closing = "]") (hbody : ShapedAll body) :
    (block text body closing).Shaped := by
  refine ⟨⟨h.oneLine, ?_, ?_, ?_⟩, ?_, hbody⟩
  · rw [h.shown, isComment_of_starts h.starts]
  · rw [h.shown, closes_of_starts h.starts]
  · rw [h.shown, h.opens]
  · rcases hclosing with rfl | rfl <;> decide +kernel

end IsHead

structure Silent (c : Code) : Prop where
  shaped : c.Shaped
  once : c.OnceInside
  declared : c.declared false = []

theorem silent_blank : Silent blank := ⟨trivial, trivial, rfl⟩

theorem silent_line {text : String} (h : IsPlain text) (hitem : itemName? text.toList = none) :
    Silent (line text) := by
  refine ⟨h.shaped, trivial, ?_⟩
  simp [h.declared, declaredName?, hitem]

theorem silent_comment {text : String} (rest : List Char) (hn : '\n' ∉ text.toList)
    (h : text.toList = '/' :: '/' :: rest) : Silent (line text) := by
  have hcomment : isComment (shown text) = true := by
    rw [shown, h]
    exact isComment_trim rest
  exact ⟨⟨hn, .inl hcomment⟩, trivial, by simp [Code.declared, hcomment]⟩

theorem silent_block {text closing : String} {body : List Code} (h : IsHead text)
    (hitem : itemName? text.toList = none) (hclosing : closing = "\x7d" ∨ closing = "]")
    (hbody : ∀ c ∈ body, Silent c) : Silent (block text body closing) where
  shaped := h.shaped_block hclosing (shapedAll_iff.mpr fun c hc => (hbody c hc).shaped)
  once := by
    have hnone : body.flatMap (Code.declared false) = [] :=
      List.flatMap_eq_nil_iff.mpr fun c hc => (hbody c hc).declared
    rw [OnceInside, h.shown, isStructLine_of_itemName? hitem, hnone]
    exact ⟨List.nodup_nil, onceInsideAll_iff.mpr fun c hc => (hbody c hc).once⟩
  declared := by simp [Code.declared, declaredName?, h.shown, hitem]

/-- Code that declares one name, with nothing twice inside if `once` holds. -/
structure Declares (cs : List Code) (name : String) (once : Prop) : Prop where
  shaped : ShapedAll cs
  declared : cs.flatMap (Code.declared false) = [name.toList]
  once : OnceInsideAll cs ↔ once

theorem Declares.congr {cs : List Code} {name : String} {once once' : Prop}
    (h : Declares cs name once) (hiff : once ↔ once') : Declares cs name once' :=
  ⟨h.shaped, h.declared, h.once.trans hiff⟩

theorem Declares.append {before after cs : List Code} {name : String} {once : Prop}
    (h : Declares cs name once) (hbefore : ∀ c ∈ before, Silent c)
    (hafter : ∀ c ∈ after, Silent c) : Declares (before ++ cs ++ after) name once := by
  have hnone {cs : List Code} (hcs : ∀ c ∈ cs, Silent c) :
      cs.flatMap (Code.declared false) = [] :=
    List.flatMap_eq_nil_iff.mpr fun c hc => (hcs c hc).declared
  constructor
  · have hshaped := shapedAll_iff.mp h.shaped
    rw [shapedAll_iff]
    grind [Silent.shaped]
  · simp [hnone hbefore, hnone hafter, h.declared]
  · rw [← h.once, onceInsideAll_iff, onceInsideAll_iff]
    grind [Silent.once]

theorem declares_block {text name : String} {body : List Code} (h : IsHead text)
    (hitem : itemName? text.toList = some name.toList) (hbody : ShapedAll body) :
    Declares [block text body closeBrace] name
      ((body.flatMap (Code.declared (isStructLine text.toList))).Nodup ∧ OnceInsideAll body) where
  shaped := ⟨h.shaped_block (.inl rfl) hbody, trivial⟩
  declared := by simp [Code.declared, declaredName?, h.shown, hitem]
  once := by simp [OnceInsideAll, OnceInside, h.shown]

theorem isHead_braces {head : String} (first : Char) (hn : '\n' ∉ head.toList)
    (hf : head.toList.head? = some first) (hs : isStarter first = true) :
    IsHead (head ++ openBrace) where
  oneLine := by simpa [openBrace] using hn
  starts := by simpa [List.head?_append, hf] using hs
  opens := by simp [opens, openBrace, List.getLast?_append, List.getLast?_cons]

theorem itemName?_of_head? {cs : List Char} (first : Char) (hf : cs.head? = some first)
    (hp : first ≠ 'p') : itemName? cs = none := by
  obtain ⟨rest, rfl⟩ := List.head?_eq_some_iff.mp hf
  exact itemName?_of_ne hp rest

theorem silent_line_of {text : String} (first last : Char) (hn : '\n' ∉ text.toList)
    (hf : text.toList.head? = some first) (hl : text.toList.getLast? = some last)
    (hs : isStarter first = true) (he : isEnder last = true) (hp : first ≠ 'p') :
    Silent (line text) :=
  silent_line (isPlain_of first last hn hf hl hs he) (itemName?_of_head? first hf hp)

theorem silent_braces {head : String} {body : List Code} (first : Char)
    (hn : '\n' ∉ head.toList) (hf : head.toList.head? = some first)
    (hs : isStarter first = true) (hp : first ≠ 'p') (hbody : ∀ c ∈ body, Silent c) :
    Silent (braces head body) := by
  refine silent_block (isHead_braces first hn hf hs) (itemName?_of_head? first ?_ hp) (.inl rfl)
    hbody
  rw [String.toList_append, List.head?_append, hf, Option.some_or]

theorem mem_spaced {parts : List (List Code)} {c : Code} (h : c ∈ spaced parts) :
    c = blank ∨ ∃ part ∈ parts, c ∈ part := by
  fun_induction spaced parts with
  | case1 => simp at h
  | case2 part => exact .inr ⟨part, List.mem_cons_self, h⟩
  | case3 part rest _ ih =>
    rcases List.mem_append.mp h with h | h
    · exact .inr ⟨part, List.mem_cons_self, h⟩
    · rcases List.mem_cons.mp h with rfl | h
      · exact .inl rfl
      · rcases ih h with rfl | ⟨p, hp, hc⟩
        · exact .inl rfl
        · exact .inr ⟨p, List.mem_cons_of_mem _ hp, hc⟩

theorem mem_spaced_of_mem {parts : List (List Code)} {part : List Code} {c : Code}
    (hpart : part ∈ parts) (h : c ∈ part) : c ∈ spaced parts := by
  fun_induction spaced parts with
  | case1 => simp at hpart
  | case2 first => rwa [← List.mem_singleton.mp hpart]
  | case3 first rest _ ih =>
    rcases List.mem_cons.mp hpart with rfl | hpart
    · exact List.mem_append_left _ h
    · exact List.mem_append_right _ (List.mem_cons_of_mem _ (ih hpart))

theorem flatMap_spaced {α : Type} {f : Code → List α} (hf : f blank = [])
    (parts : List (List Code)) : (spaced parts).flatMap f = parts.flatMap (·.flatMap f) := by
  fun_induction spaced parts with
  | case1 => rfl
  | case2 part => simp
  | case3 part rest _ ih => simp [hf, ih]

theorem forall_mem_spaced {P : Code → Prop} (hblank : P blank) {parts : List (List Code)} :
    (∀ c ∈ spaced parts, P c) ↔ ∀ part ∈ parts, ∀ c ∈ part, P c := by
  constructor
  · intro h part hpart c hc
    exact h c (mem_spaced_of_mem hpart hc)
  · intro h c hc
    rcases mem_spaced hc with rfl | ⟨part, hpart, hc⟩
    · exact hblank
    · exact h part hpart c hc

end Code

end SignalTree.Source
