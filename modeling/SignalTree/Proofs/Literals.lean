import Mathlib.Tactic.SplitIfs
import SignalTree.Proofs.Name
import SignalTree.Source.Declare

/-!
Everything that is written within a line stays on that line, whatever the nodes of
the model say. Texts are quoted, numbers consist of digits, points and signs, and
the documentation is cut into lines first.
-/
namespace SignalTree

theorem not_mem_toDigits {c : Char} (hc : ∀ n, Nat.digitChar n ≠ c) {b : Nat} (hb : 1 < b)
    (n : Nat) : c ∉ Nat.toDigits b n := by
  induction n using Nat.strongRecOn with
  | ind n ih =>
    rw [Nat.toDigits_eq_if hb]
    split
    · simpa using (hc _).symm
    · next hn =>
      have hlt : n / b < n := Nat.div_lt_self (by omega) hb
      simpa using ⟨ih _ hlt, (hc _).symm⟩

/-! String literals. -/

theorem not_mem_escape {d : Char} (hd : d = '\n' ∨ d = '\r') (c : Char) :
    d ∉ Text.Literal.escape c := by
  have hdigits : d ∉ Nat.toDigits 16 c.toNat :=
    not_mem_toDigits (by rcases hd with rfl | rfl <;> simp) (by decide) _
  unfold Text.Literal.escape
  split
  · rcases hd with rfl | rfl <;> decide
  split
  · rcases hd with rfl | rfl <;> decide
  split
  · rcases hd with rfl | rfl <;> decide
  split
  · rcases hd with rfl | rfl <;> decide
  split
  · rcases hd with rfl | rfl <;> decide
  split
  · rcases hd with rfl | rfl <;> decide
  split
  · next hreturn hnewline _ _ _ =>
    rw [List.mem_singleton]
    rintro rfl
    exact hd.elim hnewline hreturn
  · rcases hd with rfl | rfl <;> simpa [Text.Literal.escapeNumber] using hdigits

theorem not_mem_encode {d : Char} (hd : d = '\n' ∨ d = '\r') (cs : List Char) :
    d ∉ Text.Literal.encode cs := by
  have hquote : d ≠ '"' := by rcases hd with rfl | rfl <;> decide
  simp [Text.Literal.encode, not_mem_escape hd, hquote]

theorem newline_not_mem_encode (cs : List Char) : '\n' ∉ Text.Literal.encode cs :=
  not_mem_encode (.inl rfl) cs

/-! Numbers. -/

def isNumberChar (c : Char) : Bool := c.isDigit || c == '-' || c == '.' || c == 'e'

theorem newline_not_mem_of_isNumberChar {cs : List Char} (h : ∀ c ∈ cs, isNumberChar c = true) :
    '\n' ∉ cs := fun hmem => absurd (h _ hmem) (by decide)

theorem isNumberChar_of_mem_toDigits {n : Nat} {c : Char} (h : c ∈ Nat.toDigits 10 n) :
    isNumberChar c = true := by
  have hdigit := Nat.isDigit_of_mem_toDigits (by decide) (by decide) h
  simp [isNumberChar, hdigit]

theorem isNumberChar_toString (n : Int) : ∀ c ∈ (toString n).toList, isNumberChar c = true := by
  have hminus : isNumberChar '-' = true := by decide
  cases n with
  | ofNat n =>
    intro c hc
    exact isNumberChar_of_mem_toDigits (by simpa [Int.toString_eq_repr, Int.repr] using hc)
  | negSucc n =>
    intro c hc
    have hcases : c = '-' ∨ c ∈ Nat.toDigits 10 (n + 1) := by
      simpa [Int.toString_eq_repr, Int.repr] using hc
    rcases hcases with rfl | hc
    · exact hminus
    · exact isNumberChar_of_mem_toDigits hc

namespace NumberFormat

theorem isNumberChar_plain {ds : List Char} (hds : ∀ c ∈ ds, isNumberChar c = true) (whole : Int) :
    ∀ c ∈ plain ds whole, isNumberChar c = true := by
  have hzero : isNumberChar '0' = true := by decide
  have hpoint : isNumberChar '.' = true := by decide
  have htake : ∀ c ∈ ds.take whole.toNat, isNumberChar c = true := fun c hc =>
    hds c (List.mem_of_mem_take hc)
  have hdrop : ∀ c ∈ ds.drop whole.toNat, isNumberChar c = true := fun c hc =>
    hds c (List.mem_of_mem_drop hc)
  have hzeros (k : Nat) : ∀ c ∈ List.replicate k '0', isNumberChar c = true := fun c hc =>
    List.eq_of_mem_replicate hc ▸ hzero
  unfold plain
  split
  · simp only [List.forall_mem_append, List.forall_mem_cons]
    exact ⟨⟨⟨hzero, hpoint, List.forall_mem_nil _⟩, hzeros _⟩, hds⟩
  · dsimp only
    split
    · simp only [List.forall_mem_append, List.forall_mem_cons]
      exact ⟨⟨htake, hzeros _⟩, hpoint, hzero, List.forall_mem_nil _⟩
    · simp only [List.forall_mem_append, List.forall_mem_cons]
      exact ⟨⟨htake, hzeros _⟩, hpoint, hdrop⟩

theorem isNumberChar_scientific {f : NumberFormat}
    (hsign : ∀ c ∈ f.plusSign, isNumberChar c = true) {ds : List Char}
    (hds : ∀ c ∈ ds, isNumberChar c = true) (x : Int) :
    ∀ c ∈ f.scientific ds x, isNumberChar c = true := by
  have hminus : isNumberChar '-' = true := by decide
  have hpoint : isNumberChar '.' = true := by decide
  have hexponent : isNumberChar 'e' = true := by decide
  have htake : ∀ c ∈ ds.take 1, isNumberChar c = true := fun c hc => hds c (List.mem_of_mem_take hc)
  have hdrop : ∀ c ∈ ds.drop 1, isNumberChar c = true := fun c hc => hds c (List.mem_of_mem_drop hc)
  have hdigits : ∀ c ∈ Nat.toDigits 10 x.natAbs, isNumberChar c = true := fun _ =>
    isNumberChar_of_mem_toDigits
  unfold scientific
  dsimp only
  simp only [List.forall_mem_append, List.forall_mem_cons]
  refine ⟨⟨⟨htake, ?_⟩, hexponent, ?_⟩, hdigits⟩
  · split
    · exact List.forall_mem_nil _
    · exact List.forall_mem_cons.mpr ⟨hpoint, hdrop⟩
  · split
    · exact List.forall_mem_singleton.mpr hminus
    · exact hsign

theorem isNumberChar_render {f : NumberFormat} (hsign : ∀ c ∈ f.plusSign, isNumberChar c = true)
    (x : Binary) : ∀ c ∈ (f.render x).toList, isNumberChar c = true := by
  have hmagnitude : ∀ c ∈ f.magnitude x, isNumberChar c = true := by
    have hdigits (n : Nat) : ∀ c ∈ Nat.toDigits 10 n, isNumberChar c = true := fun _ =>
      isNumberChar_of_mem_toDigits
    unfold magnitude
    split
    · exact List.all_eq_true.mp rfl
    · dsimp only
      split
      · exact isNumberChar_plain (hdigits _) _
      · exact isNumberChar_scientific hsign (hdigits _) _
  rw [render, String.toList_ofList, List.forall_mem_append]
  refine ⟨?_, hmagnitude⟩
  split
  · exact List.all_eq_true.mp rfl
  · exact List.forall_mem_nil _

end NumberFormat

/-! Value types, their defaults and their bounds. -/

namespace Scalar

theorem newline_not_mem_rustType (s : Scalar) : '\n' ∉ s.rustType.toList := by
  rcases s with _ | _ | ⟨_ | _, _ | _ | _ | _⟩ | _ | _ <;> decide +kernel

theorem space_not_mem_rustType (s : Scalar) : ' ' ∉ s.rustType.toList := by
  rcases s with _ | _ | ⟨_ | _, _ | _ | _ | _⟩ | _ | _ <;> decide +kernel

theorem newline_not_mem_constantType (s : Scalar) : '\n' ∉ s.constantType.toList := by
  cases s with
  | string => decide +kernel
  | _ => exact newline_not_mem_rustType _

theorem newline_not_mem_literal? {s : Scalar} {raw literal : String}
    (h : s.literal? raw = some literal) : '\n' ∉ literal.toList := by
  cases s with
  | string =>
    simp only [literal?, Option.some.injEq] at h
    subst h
    rw [String.toList_ofList]
    exact newline_not_mem_encode _
  | boolean =>
    simp only [literal?] at h
    split_ifs at h <;> cases h <;> decide +kernel
  | integer signed w =>
    simp only [literal?, Option.bind_eq_some_iff] at h
    obtain ⟨n, -, hn⟩ := h
    split_ifs at hn
    cases hn
    exact newline_not_mem_of_isNumberChar (isNumberChar_toString n)
  | float =>
    simp only [literal?, Option.bind_eq_some_iff] at h
    obtain ⟨x, -, hx⟩ := h
    split_ifs at hx
    cases hx
    exact newline_not_mem_of_isNumberChar
      (NumberFormat.isNumberChar_render (List.forall_mem_nil _) x)
  | double =>
    simp only [literal?, Option.map_eq_some_iff] at h
    obtain ⟨x, -, rfl⟩ := h
    exact newline_not_mem_of_isNumberChar
      (NumberFormat.isNumberChar_render (List.forall_mem_nil _) x)

end Scalar

namespace ValueType

theorem newline_not_mem_rustType (t : ValueType) : '\n' ∉ t.rustType.toList := by
  cases t with
  | scalar s => exact s.newline_not_mem_rustType
  | array s => simpa [rustType] using s.newline_not_mem_rustType
  | untyped => decide +kernel

theorem space_not_mem_rustType (t : ValueType) : ' ' ∉ t.rustType.toList := by
  cases t with
  | scalar s => exact s.space_not_mem_rustType
  | array s => simpa [rustType] using s.space_not_mem_rustType
  | untyped => decide +kernel

theorem newline_not_mem_defaultLiteral (t : ValueType) : '\n' ∉ t.defaultLiteral.toList := by
  rcases t with (_ | _ | _ | _ | _) | _ | _ <;> simp [defaultLiteral, Scalar.defaultLiteral]

end ValueType

namespace Source

def Constant.OneLine (c : Constant) : Prop :=
  '\n' ∉ c.name.toList ∧ '\n' ∉ c.type.toList ∧ '\n' ∉ c.literal.toList

theorem oneLine_textConstant {name : String} (hname : '\n' ∉ name.toList) (value : String) :
    (textConstant name value).OneLine := by
  refine ⟨hname, ?_, ?_⟩
  · simp [textConstant]
  · simpa [textConstant, Text.Literal.quote] using newline_not_mem_encode value.toList

theorem oneLine_boundConstant? {type : ValueType} {bound : BoundKind} {raw : String} {c : Constant}
    (h : boundConstant? type bound raw = some c) : c.OneLine := by
  simp only [boundConstant?, ValueType.boundType?, ValueType.boundLiteral?, Option.bind_eq_bind,
    Option.bind_eq_some_iff, Option.map_eq_some_iff, Option.pure_def, Option.some.injEq] at h
  obtain ⟨_, ⟨s, -, rfl⟩, literal, ⟨s', -, hliteral⟩, rfl⟩ := h
  refine ⟨?_, s.newline_not_mem_constantType, Scalar.newline_not_mem_literal? hliteral⟩
  cases bound <;> simp [BoundKind.name]

theorem oneLine_constants (n : Node) {c : Constant} (hc : c ∈ constants n) : c.OneLine := by
  have hoptional {name : String} {value : Option String} (hname : '\n' ∉ name.toList)
      (h : c ∈ (value.map (textConstant name)).toList) : c.OneLine := by
    rw [Option.mem_toList, Option.map_eq_some_iff] at h
    obtain ⟨text, -, rfl⟩ := h
    exact oneLine_textConstant hname text
  simp only [constants, List.mem_append, List.mem_cons, List.not_mem_nil, or_false] at hc
  rcases hc with ((((((rfl | rfl | rfl) | h) | h) | h) | h) | h)
  · exact oneLine_textConstant (by decide +kernel) _
  · exact oneLine_textConstant (by decide +kernel) _
  · exact oneLine_textConstant (by decide +kernel) _
  · exact hoptional (by decide +kernel) h
  · exact hoptional (by decide +kernel) h
  · exact hoptional (by decide +kernel) h
  · exact hoptional (by decide +kernel) h
  · obtain ⟨⟨bound, raw⟩, -, hbound⟩ := List.mem_filterMap.mp h
    exact oneLine_boundConstant? hbound

theorem newline_not_mem_nodeDocs (p : Properties) {line : String} (h : line ∈ nodeDocs p) :
    '\n' ∉ line.toList := by
  have hlines {text : Option String}
      (h : line ∈ (text.map fun t => (Text.lines t.toList).map String.ofList).getD []) :
      '\n' ∉ line.toList := by
    cases text with
    | none => simp at h
    | some t =>
      obtain ⟨cs, hcs, rfl⟩ := List.mem_map.mp h
      rw [String.toList_ofList]
      exact Text.not_mem_lines hcs
  unfold nodeDocs at h
  split_ifs at h
  · rcases List.mem_append.mp h with h | h
    · exact hlines h
    · rcases List.mem_cons.mp h with rfl | h
      · decide +kernel
      · exact hlines h
  · rcases List.mem_append.mp h with h | h
    · exact hlines h
    · exact hlines h

end Source

end SignalTree
