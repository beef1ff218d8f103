import SignalTree.Text.Hex
import SignalTree.Text.Literal

/-!
String literals read back. An escape ends where the next character of the text starts,
so a literal is the literal of one text only.
-/
namespace SignalTree.Text

theorem hexDigit?_digitChar {d : Nat} (h : d < 16) : hexDigit? d.digitChar = some d := by
  have hall : ∀ d : Fin 16, hexDigit? d.val.digitChar = some d.val := by decide
  exact hall ⟨d, h⟩

theorem hexNumber?_toDigits (n : Nat) : hexNumber? (Nat.toDigits 16 n) = some n := by
  induction n using Nat.strongRecOn with
  | _ n ih =>
    rw [Nat.toDigits_eq_if (by decide)]
    split
    · next h => simp [hexNumber?, hexDigit?_digitChar h]
    · next h =>
      have hdiv : n / 16 < n := by omega
      have hmod : n % 16 < 16 := by omega
      have ih := ih (n / 16) hdiv
      rw [hexNumber?] at ih ⊢
      simp only [List.foldlM_append, ih, Option.bind_eq_bind, Option.bind_some, List.foldlM_cons,
        hexDigit?_digitChar hmod, Option.map_some, List.foldlM_nil]
      exact congrArg some (Nat.div_add_mod n 16)

namespace Literal

inductive Mode where
  | text
  | escape
  | high
  | low (high : Nat)
  | brace
  | number (value digits : Nat)

def escaped? : Char → Option Char
  | '0' => some '\x00'
  | 't' => some '\t'
  | 'r' => some '\r'
  | 'n' => some '\n'
  | '\\' => some '\\'
  | '"' => some '"'
  | '\'' => some '\''
  | _ => none

def char? (n : Nat) : Option Char := if n.isValidChar then some (Char.ofNat n) else none

/-- The text of a literal on one line, after its opening quote. A number has two digits below
128, or up to six between braces, with underscores behind the first. -/
def read? : Mode → List Char → Option (List Char)
  | _, [] => none
  | .text, c :: rest =>
    if c = '"' then if rest.isEmpty then some [] else none
    else if c = '\\' then read? .escape rest
    else if c = '\n' ∨ c = '\r' then none
    else (read? .text rest).map (c :: ·)
  | .escape, c :: rest =>
    if c = 'u' then read? .brace rest
    else if c = 'x' then read? .high rest
    else (escaped? c).bind fun d => (read? .text rest).map (d :: ·)
  | .high, c :: rest => ((hexDigit? c).filter (· < 8)).bind fun d => read? (.low d) rest
  | .low high, c :: rest =>
    (hexDigit? c).bind fun d => (read? .text rest).map (Char.ofNat (16 * high + d) :: ·)
  | .brace, c :: rest => if c = '{' then read? (.number 0 0) rest else none
  | .number n digits, c :: rest =>
    if c = '}' ∧ digits ≠ 0 then (char? n).bind fun d => (read? .text rest).map (d :: ·)
    else if c = '_' ∧ digits ≠ 0 then read? (.number n digits) rest
    else if digits < 6 then
      (hexDigit? c).bind fun d => read? (.number (16 * n + d) (digits + 1)) rest
    else none

theorem char?_toNat (c : Char) : char? c.toNat = some c := by
  have hvalid : c.toNat.isValidChar := c.valid
  rw [char?, if_pos hvalid, Char.ofNat_toNat]

theorem read?_number {digits : List Char} {n m count : Nat} (hcount : count + digits.length ≠ 0)
    (hlength : count + digits.length ≤ 6)
    (h : digits.foldlM (fun n c => (hexDigit? c).map (16 * n + ·)) n = some m) (rest : List Char) :
    read? (.number n count) (digits ++ '}' :: rest) =
      (char? m).bind fun d => (read? .text rest).map (d :: ·) := by
  induction digits generalizing n count with
  | nil =>
    cases h
    rw [List.nil_append, read?, if_pos ⟨rfl, by simpa using hcount⟩]
  | cons c digits ih =>
    rw [List.foldlM_cons, Option.bind_eq_bind, Option.bind_eq_some_iff] at h
    obtain ⟨k, hk, h⟩ := h
    obtain ⟨d, hd, rfl⟩ := Option.map_eq_some_iff.mp hk
    rw [List.length_cons] at hlength
    have hdigit {mark : Char} (hmark : hexDigit? mark = none) : c ≠ mark := by
      rintro rfl
      rw [hmark] at hd
      cases hd
    rw [List.cons_append, read?, if_neg fun hc => hdigit (by decide) hc.1,
      if_neg fun hc => hdigit (by decide) hc.1, if_pos (by omega), hd, Option.bind_some,
      ih (by omega) (by omega) h]

theorem escape_cases (c : Char) :
    (∃ d, escape c = ['\\', d] ∧ d ≠ 'u' ∧ d ≠ 'x' ∧ escaped? d = some c) ∨
      (escape c = [c] ∧ c ≠ '\\' ∧ c ≠ '"' ∧ c ≠ '\n' ∧ c ≠ '\r') ∨
        escape c = escapeNumber c := by
  unfold escape
  split
  · next h => exact .inl ⟨'0', rfl, by decide, by decide, congrArg some h.symm⟩
  split
  · next h => exact .inl ⟨'t', rfl, by decide, by decide, congrArg some h.symm⟩
  split
  · next h => exact .inl ⟨'r', rfl, by decide, by decide, congrArg some h.symm⟩
  next hreturn =>
  split
  · next h => exact .inl ⟨'n', rfl, by decide, by decide, congrArg some h.symm⟩
  next hfeed =>
  split
  · next h => exact .inl ⟨'\\', rfl, by decide, by decide, congrArg some h.symm⟩
  split
  · next h => exact .inl ⟨'"', rfl, by decide, by decide, congrArg some h.symm⟩
  next hslash hquote =>
  split
  · exact .inr (.inl ⟨rfl, hslash, hquote, hfeed, hreturn⟩)
  · exact .inr (.inr rfl)

theorem length_toDigits_toNat (c : Char) :
    (Nat.toDigits 16 c.toNat).length ≠ 0 ∧ (Nat.toDigits 16 c.toNat).length ≤ 6 := by
  constructor
  · have : 0 < (Nat.toDigits 16 c.toNat).length := Nat.length_toDigits_pos
    omega
  · refine (Nat.length_toDigits_le_iff (by decide) (by decide)).mpr ?_
    have hvalid : c.toNat.isValidChar := c.valid
    unfold Nat.isValidChar at hvalid
    omega

/-- An escape reads as its character, whatever follows. -/
theorem read?_escape (c : Char) (rest : List Char) :
    read? .text (escape c ++ rest) = (read? .text rest).map (c :: ·) := by
  obtain ⟨d, h, hu, hx, hc⟩ | ⟨h, hslash, hquote, hfeed, hreturn⟩ | h := escape_cases c
  · rw [h, List.cons_append, read?, if_neg (by decide), if_pos rfl, List.singleton_append, read?,
      if_neg hu, if_neg hx, hc, Option.bind_some]
  · rw [h, List.singleton_append, read?, if_neg hquote, if_neg hslash,
      if_neg (not_or_intro hfeed hreturn)]
  · obtain ⟨hne, hle⟩ := length_toDigits_toNat c
    have hdigits := read?_number (by rwa [Nat.zero_add]) (by rwa [Nat.zero_add])
      (hexNumber?_toDigits c.toNat) rest
    rw [h, escapeNumber, List.append_assoc, List.append_assoc, List.singleton_append,
      List.cons_append, List.cons_append, List.cons_append, List.nil_append, read?,
      if_neg (by decide), if_pos rfl, read?, if_pos rfl, read?, if_pos rfl, hdigits, char?_toNat,
      Option.bind_some]

def decode? : List Char → Option (List Char)
  | '"' :: rest => read? .text rest
  | _ => none

/-- Every text reads back from its literal. -/
theorem decode?_encode (cs : List Char) : decode? (encode cs) = some cs := by
  change read? .text (cs.flatMap escape ++ ['"']) = some cs
  induction cs with
  | nil => rfl
  | cons c cs ih => rw [List.flatMap_cons, List.append_assoc, read?_escape, ih, Option.map_some]

theorem encode_injective : Function.Injective encode := by
  intro cs ds h
  have hdecode := congrArg decode? h
  rw [decode?_encode, decode?_encode] at hdecode
  exact Option.some.inj hdecode

theorem quote_injective : Function.Injective quote := by
  intro s t h
  exact String.toList_injective (encode_injective (String.ofList_injective h))

end Literal

end SignalTree.Text
