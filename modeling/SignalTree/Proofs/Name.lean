import SignalTree.Model.Name
import SignalTree.Settings.Basic
import SignalTree.Text.Basic

/-!
What the names of types, modules and fields consist of. A type name starts with
an upper case letter and a module name has none, so a module never takes the name
of a type. The module of a type starts like the type, in lower case.
-/
namespace SignalTree

/-- The characters of names. A raw identifier has a number sign. -/
def isNameChar (c : Char) : Bool := c.isAlphanum || c == '_' || c == '#'

def IsName (name : String) : Prop := ∀ c ∈ name.toList, isNameChar c = true

instance (name : String) : Decidable (IsName name) := decidable_of_iff _ List.all_eq_true

/-- The name that some path gives to its type. -/
def IsTypeName (name : String) : Prop := ∃ p : Path, p.isNameable = true ∧ p.typeName = name

theorem isNameChar_toNat {c : Char} (h : isNameChar c = true) :
    c.toNat = 35 ∨ 48 ≤ c.toNat ∧ c.toNat ≤ 57 ∨ 65 ≤ c.toNat ∧ c.toNat ≤ 90 ∨ c.toNat = 95 ∨
      97 ≤ c.toNat ∧ c.toNat ≤ 122 := by
  change (decide (c.val ≥ 65 ∧ c.val ≤ 90) || (c.val ≥ 97 && c.val ≤ 122) ||
    (c.val ≥ 48 && c.val ≤ 57) || c == '_' || c == '#') = true at h
  simp only [Bool.or_eq_true, Bool.and_eq_true, decide_eq_true_eq, beq_iff_eq, ge_iff_le,
    UInt32.le_iff_toNat_le] at h
  change ((((65 ≤ c.toNat ∧ c.toNat ≤ 90) ∨ (97 ≤ c.toNat ∧ c.toNat ≤ 122)) ∨
    (48 ≤ c.toNat ∧ c.toNat ≤ 57)) ∨ c = '_') ∨ c = '#' at h
  rcases h with ((h | h) | rfl) | rfl
  · omega
  · omega
  · decide
  · decide

theorem isBlank_of_isNameChar {c : Char} (h : isNameChar c = true) : Text.isBlank c = false := by
  have hn := isNameChar_toNat h
  have hlow : 0x21 ≤ c.toNat := by omega
  have hhigh : c.toNat < 0x85 := by omega
  simp only [Text.isBlank, Runs.contains, Text.blankRuns, Runs.inside]
  rw [if_neg (by omega), if_neg (by omega), if_neg (by omega), if_neg (by omega), if_pos hhigh]
  rfl

namespace IsName

theorem not_mem {name : String} (h : IsName name) {c : Char} (hc : isNameChar c = false) :
    c ∉ name.toList := by
  intro hmem
  rw [h c hmem] at hc
  exact Bool.noConfusion hc

theorem append {a b : String} (ha : IsName a) (hb : IsName b) : IsName (a ++ b) := by
  intro c hc
  rw [String.toList_append, List.mem_append] at hc
  exact hc.elim (ha c) (hb c)

end IsName

theorem isNameChar_of_isTypeNameChar {c : Char} (h : isTypeNameChar c = true) :
    isNameChar c = true := by
  rw [isNameChar, ← isTypeNameChar, h, Bool.true_or]

theorem isNameChar_of_isIdentChar {c : Char} (h : isIdentChar c = true) : isNameChar c = true := by
  simp only [isIdentChar, Bool.or_eq_true] at h
  change ((c.isUpper || c.isLower || c.isDigit) || c == '_' || c == '#') = true
  simp only [Bool.or_eq_true]
  rcases h with (h | h) | h
  · exact .inl (.inl (.inl (.inr h)))
  · exact .inl (.inl (.inr h))
  · exact .inl (.inr h)

theorem mem_sanitize {keep : Char → Bool} {cs : List Char} {c : Char}
    (hunderscore : keep '_' = true) (h : c ∈ sanitize keep cs) : keep c = true := by
  obtain ⟨d, -, rfl⟩ := List.mem_map.mp h
  by_cases hd : keep d = true
  · rw [if_pos hd, hd]
  · rw [if_neg hd, hunderscore]

/-! Module names. -/

theorem isIdentChar_of_mem_moduleName {name : String} {c : Char}
    (h : c ∈ (moduleName name).toList) : isIdentChar c = true := by
  rw [moduleName, snakeIdent, String.toList_ofList] at h
  exact mem_sanitize (by decide) h

theorem isName_moduleName (name : String) : IsName (moduleName name) := fun _ hc =>
  isNameChar_of_isIdentChar (isIdentChar_of_mem_moduleName hc)

theorem isName_of_isModuleName {module : String} (h : Settings.isModuleName module = true) :
    IsName module := by
  unfold Settings.isModuleName at h
  split at h
  · next hm => simp [IsName, hm]
  · next c rest hm =>
    obtain ⟨hc, hrest⟩ := (Bool.and_eq_true _ _).mp h
    have hall : ∀ d ∈ c :: rest, isIdentChar d = true := by
      simp only [List.forall_mem_cons, isIdentChar]
      simp only [Bool.or_eq_true] at hc
      refine ⟨?_, fun d hd => List.all_eq_true.mp hrest d hd⟩
      rcases hc with hc | hc <;> simp [hc]
    exact fun d hd => isNameChar_of_isIdentChar (hall d (hm ▸ hd))

/-! Field names. -/

theorem isName_guardFirst {ident : String} (h : IsName ident) : IsName (guardFirst ident) := by
  have hunderscore : IsName "_" := by simp [IsName, isNameChar]
  unfold guardFirst
  split
  · exact hunderscore
  · split
    · exact hunderscore.append h
    · exact h

theorem isName_escapeField {ident : String} (h : IsName ident) : IsName (escapeField ident) := by
  unfold escapeField
  split
  · exact h.append (by simp [IsName, isNameChar])
  split
  · exact h.append (by simp [IsName, isNameChar])
  split
  · exact IsName.append (by simp [IsName, isNameChar]) h
  · exact h

theorem isName_fieldName (p : Path) : IsName (fieldName p) :=
  isName_escapeField (isName_guardFirst (isName_moduleName p.leaf.text))

theorem isName_valueField : IsName valueField := by simp [IsName, valueField, isNameChar]

namespace Text

theorem exists_wordsFrom_eq (before : ClusterKind) (word rest : List Cluster) :
    ∃ more later, wordsFrom before word rest = (word.reverse.flatten ++ more) :: later := by
  induction rest generalizing before word with
  | nil => exact ⟨[], [], by rw [wordsFrom, List.append_nil]⟩
  | cons cluster rest ih =>
    rw [wordsFrom]
    split
    · exact ⟨[], _, by rw [List.append_nil]⟩
    split
    · exact ⟨[], _, by rw [List.append_nil]⟩
    · obtain ⟨more, later, h⟩ := ih (clusterKind cluster) (cluster :: word)
      refine ⟨cluster ++ more, later, ?_⟩
      rw [h]
      simp

theorem exists_clustersFrom_eq {current : List Char} (hcurrent : current ≠ []) (cs : List Char) :
    ∃ more later, clustersFrom current cs = (current.reverse ++ more) :: later := by
  induction cs generalizing current with
  | nil => exact ⟨[], [], by simp [clustersFrom, hcurrent]⟩
  | cons c cs ih =>
    rw [clustersFrom]
    split
    · obtain ⟨more, later, h⟩ := ih (List.cons_ne_nil c current)
      exact ⟨c :: more, later, by rw [h]; simp⟩
    · rw [if_neg (by simp [hcurrent])]
      exact ⟨[], _, by rw [List.append_nil]⟩

/-- Whatever attaches to the letter, no word starts at it after a lower case letter. -/
theorem clusterKind_cons_s (marks : List Char) :
    clusterKind ('s' :: marks) = .lower ∨ clusterKind ('s' :: marks) = .other := by
  have hdigit : ('s' :: marks).all Char.isDigit = false := by simp
  have hraising : raising.contains 's' = true := by decide +kernel
  have hany : ('s' :: marks).any raising.contains = true := by simp [hraising]
  rw [clusterKind, if_neg (by simp), hdigit, if_neg Bool.false_ne_true, if_pos hany]
  split
  · exact .inr rfl
  · exact .inl rfl

theorem exists_words_prefix (rest : List Char) :
    ∃ more later, words ('V' :: 's' :: 's' :: rest) = ('V' :: 's' :: 's' :: more) :: later := by
  have hstart : continues [] 'V' = false := rfl
  have hfirst : continues ['V'] 's' = false := by decide +kernel
  have hsecond : continues ['s'] 's' = false := by decide +kernel
  obtain ⟨marks, others, hrest⟩ := exists_clustersFrom_eq (List.cons_ne_nil 's' []) rest
  have hclusters : clusters ('V' :: 's' :: 's' :: rest) =
      ['V'] :: ['s'] :: ('s' :: marks) :: others := by
    simp [clusters, clustersFrom, hstart, hfirst, hsecond, hrest]
  have hupper : clusterKind ['V'] = .upper := by decide +kernel
  have hlower : clusterKind ['s'] = .lower := by decide +kernel
  obtain ⟨more, later, hothers⟩ :=
    exists_wordsFrom_eq (clusterKind ('s' :: marks)) ['s' :: marks, ['s'], ['V']] others
  have hwords : wordsFrom .separator [] (clusters ('V' :: 's' :: 's' :: rest)) =
      ('V' :: 's' :: 's' :: (marks ++ more)) :: later := by
    rw [hclusters]
    rcases clusterKind_cons_s marks with hkind | hkind
    · simpa [wordsFrom, startsWord, hupper, hlower, hkind] using hothers
    · simpa [wordsFrom, startsWord, hupper, hlower, hkind] using hothers
  refine ⟨marks ++ more, later.filter (!·.isEmpty), ?_⟩
  rw [words, hwords, List.filter_cons_of_pos (by simp)]

end Text

namespace IsTypeName

variable {name : String}

theorem exists_toList (h : IsTypeName name) :
    ∃ rest, name.toList = 'V' :: 's' :: 's' :: sanitize isTypeNameChar rest := by
  obtain ⟨p, -, rfl⟩ := h
  exact ⟨p.leaf.text.toList, by simp [Path.typeName, typePrefix]⟩

theorem isName (h : IsTypeName name) : IsName name := by
  obtain ⟨rest, hrest⟩ := h.exists_toList
  intro c hc
  rw [hrest, List.mem_cons, List.mem_cons, List.mem_cons] at hc
  rcases hc with rfl | rfl | rfl | hc
  · decide
  · decide
  · decide
  · exact isNameChar_of_isTypeNameChar (mem_sanitize (by decide) hc)

theorem ne_moduleName (h : IsTypeName name) (other : String) : moduleName other ≠ name := by
  intro heq
  obtain ⟨rest, hrest⟩ := h.exists_toList
  have hmem : 'V' ∈ (moduleName other).toList := by
    rw [heq, hrest]
    exact List.mem_cons_self
  have := isIdentChar_of_mem_moduleName hmem
  revert this
  decide

theorem exists_toList_moduleName (h : IsTypeName name) :
    ∃ rest, (moduleName name).toList = 'v' :: 's' :: 's' :: rest := by
  obtain ⟨rest, hrest⟩ := h.exists_toList
  obtain ⟨more, later, hwords⟩ := Text.exists_words_prefix (sanitize isTypeNameChar rest)
  have hupper : Text.lowerChar 'V' = ['v'] := by decide +kernel
  have hlower : Text.lowerChar 's' = ['s'] := by decide +kernel
  have hsnake : ∃ tail, Text.snakeCase name.toList = 'v' :: 's' :: 's' :: tail := by
    rw [hrest, Text.snakeCase, hwords]
    simp only [List.map_cons, List.flatMap_cons, hupper, hlower]
    cases later.map (·.flatMap Text.lowerChar) with
    | nil => exact ⟨_, rfl⟩
    | cons next after => exact ⟨_, rfl⟩
  obtain ⟨tail, htail⟩ := hsnake
  rw [moduleName, snakeIdent, String.toList_ofList, htail]
  exact ⟨_, rfl⟩

theorem head?_moduleName (h : IsTypeName name) : (moduleName name).toList.head? = some 'v' := by
  obtain ⟨rest, hrest⟩ := h.exists_toList_moduleName
  rw [hrest, List.head?_cons]

end IsTypeName

end SignalTree
