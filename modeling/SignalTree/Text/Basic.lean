import SignalTree.Text.Blank

/-!
Cutting text. A text is cut as the list of its characters, so that every piece
is a sublist of it.
-/
namespace SignalTree.Text

def trimStart (cs : List Char) : List Char := cs.dropWhile isBlank

def trimEnd (cs : List Char) : List Char := (cs.reverse.dropWhile isBlank).reverse

def trim (cs : List Char) : List Char := trimEnd (trimStart cs)

/-- The lines of a text. A carriage return belongs to the line end only when the
line feed follows, and the last line needs no line end. -/
def lines : List Char → List (List Char)
  | [] => []
  | '\n' :: rest => [] :: lines rest
  | '\r' :: '\n' :: rest => [] :: lines rest
  | c :: rest =>
    match lines rest with
    | [] => [[c]]
    | line :: more => (c :: line) :: more

def splitOnce? (sep : Char) : List Char → Option (List Char × List Char)
  | [] => none
  | c :: rest =>
    if c = sep then some ([], rest)
    else (splitOnce? sep rest).map fun (before, after) => (c :: before, after)

/-- The pieces between the separators, one more than there are separators. -/
def pieces (sep : Char) : List Char → List (List Char)
  | [] => [[]]
  | c :: rest =>
    if c = sep then [] :: pieces sep rest
    else
      match pieces sep rest with
      | [] => [[c]]
      | piece :: more => (c :: piece) :: more

def afterLast? (sep : Char) : List Char → Option (List Char)
  | [] => none
  | c :: rest =>
    match afterLast? sep rest with
    | some after => some after
    | none => if c = sep then some rest else none

def stripPrefix? : List Char → List Char → Option (List Char)
  | [], cs => some cs
  | _ :: _, [] => none
  | p :: start, c :: cs => if p = c then stripPrefix? start cs else none

def stripSuffix? (ending cs : List Char) : Option (List Char) :=
  (stripPrefix? ending.reverse cs.reverse).map List.reverse

def after? (needle : List Char) : List Char → Option (List Char)
  | [] => stripPrefix? needle []
  | c :: rest => stripPrefix? needle (c :: rest) <|> after? needle rest

def unquote : List Char → List Char
  | [] => []
  | q :: rest =>
    if (q = '"' ∨ q = '\'') ∧ rest.getLast? = some q then rest.dropLast else q :: rest

theorem pieces_ne_nil (sep : Char) (cs : List Char) : pieces sep cs ≠ [] := by
  fun_cases pieces sep cs <;> simp_all

theorem not_mem_pieces {sep : Char} {cs piece : List Char} (h : piece ∈ pieces sep cs) :
    sep ∉ piece := by
  fun_induction pieces sep cs generalizing piece <;> grind

theorem pieces_of_not_mem {sep : Char} {cs : List Char} (h : sep ∉ cs) : pieces sep cs = [cs] := by
  induction cs with
  | nil => rfl
  | cons c cs ih => grind [pieces]

theorem pieces_append {sep : Char} {cs : List Char} (h : sep ∉ cs) (rest : List Char) :
    pieces sep (cs ++ sep :: rest) = cs :: pieces sep rest := by
  induction cs with
  | nil => simp [pieces]
  | cons c cs ih => grind [pieces]

theorem pieces_append_cons (sep : Char) (cs rest : List Char) :
    pieces sep (cs ++ sep :: rest) = pieces sep cs ++ pieces sep rest := by
  induction cs with
  | nil => simp [pieces]
  | cons c cs ih =>
    obtain ⟨first, more, hpieces⟩ := List.exists_cons_of_ne_nil (pieces_ne_nil sep cs)
    by_cases hc : c = sep
    · simp [pieces, hc, ih]
    · simp [pieces, hc, ih, hpieces]

theorem pieces_intercalate (sep : Char) {parts : List (List Char)} (hne : parts ≠ [])
    (h : ∀ part ∈ parts, sep ∉ part) : pieces sep ([sep].intercalate parts) = parts := by
  induction parts with
  | nil => exact absurd rfl hne
  | cons part rest ih =>
    have hpart := h part List.mem_cons_self
    cases rest with
    | nil => simpa using pieces_of_not_mem hpart
    | cons next rest =>
      rw [List.intercalate_cons_cons, List.append_assoc, List.singleton_append,
        pieces_append hpart, ih (by simp) fun p hp => h p (List.mem_cons_of_mem _ hp)]

theorem mem_pieces_iff {sep c : Char} (hc : c ≠ sep) (cs : List Char) :
    (∃ piece ∈ pieces sep cs, c ∈ piece) ↔ c ∈ cs := by
  induction cs with
  | nil => simp [pieces]
  | cons d cs ih =>
    obtain ⟨first, more, hpieces⟩ := List.exists_cons_of_ne_nil (pieces_ne_nil sep cs)
    rw [hpieces] at ih
    by_cases hd : d = sep
    · subst hd
      simpa [pieces, hpieces, hc] using ih
    · simp only [List.mem_cons, exists_eq_or_imp] at ih
      simp [pieces, hd, hpieces, ← ih, or_assoc]

theorem intercalate_pieces (sep : Char) (cs : List Char) :
    [sep].intercalate (pieces sep cs) = cs := by
  induction cs with
  | nil => simp [pieces]
  | cons c cs ih =>
    obtain ⟨first, rest, h⟩ := List.exists_cons_of_ne_nil (pieces_ne_nil sep cs)
    rw [h] at ih
    by_cases hc : c = sep
    · simp [pieces, hc, h, List.intercalate_cons_cons, ih]
    · cases rest <;> simp_all [pieces, List.intercalate_cons_cons]

theorem afterLast?_append {sep : Char} {rest after : List Char} (h : afterLast? sep rest = some after)
    (cs : List Char) : afterLast? sep (cs ++ rest) = some after := by
  induction cs with
  | nil => exact h
  | cons c cs ih => rw [List.cons_append, afterLast?, ih]

@[simp] theorem splitOnce?_eq_none {sep : Char} {cs : List Char} :
    splitOnce? sep cs = none ↔ sep ∉ cs := by
  induction cs with
  | nil => simp [splitOnce?]
  | cons c cs ih =>
    by_cases h : c = sep
    · simp [splitOnce?, h]
    · simp [splitOnce?, h, ih, Ne.symm h]

theorem splitOnce?_eq_some {sep : Char} {cs before after : List Char} :
    splitOnce? sep cs = some (before, after) ↔
      sep ∉ before ∧ cs = before ++ sep :: after := by
  induction cs generalizing before after with
  | nil => simp [splitOnce?]
  | cons c cs ih =>
    by_cases h : c = sep
    · subst h
      cases before with
      | nil => simp [splitOnce?]
      | cons b before => simp +contextual [splitOnce?]
    · cases before with
      | nil => simp [splitOnce?, h]
      | cons b before =>
        simp [splitOnce?, h, ih]
        grind

theorem stripPrefix?_eq_some {start cs rest : List Char} :
    stripPrefix? start cs = some rest ↔ cs = start ++ rest := by
  induction start generalizing cs with
  | nil => simp [stripPrefix?]
  | cons p start ih =>
    cases cs with
    | nil => simp [stripPrefix?]
    | cons c cs =>
      by_cases h : p = c
      · simp [stripPrefix?, h, ih]
      · simp [stripPrefix?, h, Ne.symm h]

theorem stripSuffix?_eq_some {ending cs rest : List Char} :
    stripSuffix? ending cs = some rest ↔ cs = rest ++ ending := by
  simp only [stripSuffix?, Option.map_eq_some_iff, stripPrefix?_eq_some]
  constructor
  · rintro ⟨r, hr, rfl⟩
    simpa using congrArg List.reverse hr
  · rintro rfl
    exact ⟨rest.reverse, by simp, by simp⟩

theorem not_mem_lines {cs line : List Char} (h : line ∈ lines cs) : '\n' ∉ line := by
  fun_induction lines cs generalizing line with
  | case1 => simp at h
  | case2 rest ih => grind
  | case3 rest ih => grind
  | case4 c rest hn hr hl ih => simp at h; subst h; simpa using fun e => hn e.symm
  | case5 c rest hn hr line' more hl ih => grind

end SignalTree.Text
