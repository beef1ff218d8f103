import Mathlib.Algebra.Field.Rat
import Mathlib.Algebra.Order.Ring.Unbundled.Rat
import Mathlib.Tactic.FieldSimp
import Mathlib.Tactic.Ring
import SignalTree.Decimal.Numeral

/-!
Decimal notation, part by part, and what it writes. Reading takes every such text apart again,
and gives the very number, however many digits there are.
-/
namespace SignalTree.Decimal

inductive Sign where
  | omitted
  | plus
  | minus
deriving DecidableEq

namespace Sign

def text : Sign → List Char
  | omitted => []
  | plus => ['+']
  | minus => ['-']

def isMinus (s : Sign) : Bool := s == minus

end Sign

abbrev IsDigits (ds : List Char) : Prop := ∀ c ∈ ds, c.isDigit = true

theorem isDigits_of_all {ds : List Char} (h : ds.all Char.isDigit = true) : IsDigits ds :=
  List.all_eq_true.mp h

/-- A sign and at least one digit. -/
structure IntegerText where
  sign : Sign
  digits : List Char
  filled : digits ≠ []
  isDigits : IsDigits digits

namespace IntegerText

def text (x : IntegerText) : List Char := x.sign.text ++ x.digits

def value (x : IntegerText) : Int :=
  Numeral.signed x.sign.isMinus (Nat.ofDigitChars 10 x.digits 0)

/-- The one spelling of a number without a plus, a sign of zero or zeros in front. -/
structure IsCanonical (x : IntegerText) : Prop where
  sign_ne : x.sign ≠ .plus
  zero : x.digits.head? = some '0' → x.digits = ['0'] ∧ x.sign = .omitted

end IntegerText

/-- A decimal number: digits on at least one side of the point, which may be left out together
with what follows it, and an exponent behind a letter. -/
structure DecimalText where
  sign : Sign
  whole : List Char
  fraction : Option (List Char)
  exponent : Option (Char × IntegerText)
  whole_isDigits : IsDigits whole
  fraction_isDigits : ∀ ds ∈ fraction, IsDigits ds
  filled : whole ≠ [] ∨ ∃ ds ∈ fraction, ds ≠ []
  letter : ∀ e ∈ exponent, e.1 = 'e' ∨ e.1 = 'E'

namespace DecimalText

def pointText (d : DecimalText) : List Char := (d.fraction.map ('.' :: ·)).getD []

def exponentText (d : DecimalText) : List Char :=
  (d.exponent.map fun (letter, x) => letter :: x.text).getD []

def text (d : DecimalText) : List Char :=
  d.sign.text ++ (d.whole ++ (d.pointText ++ d.exponentText))

def fractionDigits (d : DecimalText) : List Char := d.fraction.getD []

def power (d : DecimalText) : Int := (d.exponent.map fun (_, x) => x.value).getD 0

def magnitude (d : DecimalText) : ℚ :=
  (Nat.ofDigitChars 10 d.whole 0 +
    Nat.ofDigitChars 10 d.fractionDigits 0 / 10 ^ d.fractionDigits.length) * 10 ^ d.power

/-- The number that is written, exactly. -/
def value (d : DecimalText) : ℚ := if d.sign.isMinus then -d.magnitude else d.magnitude

def ofInteger (x : IntegerText) : DecimalText where
  sign := x.sign
  whole := x.digits
  fraction := none
  exponent := none
  whole_isDigits := x.isDigits
  fraction_isDigits := nofun
  filled := .inl x.filled
  letter := nofun

theorem text_ofInteger (x : IntegerText) : (ofInteger x).text = x.text := by
  simp [text, ofInteger, pointText, exponentText, IntegerText.text]

theorem value_ofInteger (x : IntegerText) : (ofInteger x).value = x.value := by
  simp [value, magnitude, ofInteger, fractionDigits, power, IntegerText.value, Numeral.signed]

def pointed (whole fraction : List Char) (hwhole : IsDigits whole) (hfraction : IsDigits fraction)
    (hfilled : whole ≠ []) : DecimalText where
  sign := .omitted
  whole := whole
  fraction := some fraction
  exponent := none
  whole_isDigits := hwhole
  fraction_isDigits := by
    rintro _ ⟨⟩
    exact hfraction
  filled := .inl hfilled
  letter := nofun

theorem value_pointed {whole fraction : List Char} {hwhole : IsDigits whole}
    {hfraction : IsDigits fraction} {hfilled : whole ≠ []} :
    (pointed whole fraction hwhole hfraction hfilled).value =
      Nat.ofDigitChars 10 whole 0 + Nat.ofDigitChars 10 fraction 0 / 10 ^ fraction.length := by
  simp [value, magnitude, pointed, fractionDigits, power, Sign.isMinus]

def HasPointOrExponent (d : DecimalText) : Prop := d.fraction.isSome ∨ d.exponent.isSome

end DecimalText

end SignalTree.Decimal

namespace SignalTree.Numeral

open Decimal

def value (x : Numeral) : ℚ := signed x.negative x.coefficient * 10 ^ x.exponent

theorem cast_signed (negative : Bool) (n : Nat) :
    (signed negative n : ℚ) = if negative then -(n : ℚ) else n := by
  cases negative <;> simp [signed]

theorem natAbs_signed (negative : Bool) (n : Nat) : (signed negative n).natAbs = n := by
  cases negative
  · exact Int.natAbs_natCast n
  · exact (Int.natAbs_neg n).trans (Int.natAbs_natCast n)

theorem signed_mul (negative : Bool) (n k : Nat) :
    signed negative (n * k) = signed negative n * k := by
  cases negative
  · exact Nat.cast_mul n k
  · exact (congrArg Neg.neg (Nat.cast_mul n k)).trans (neg_mul _ _).symm

theorem ofDigits_eq (ds : List Char) : ofDigits ds = Nat.ofDigitChars 10 ds 0 := rfl

theorem ofDigits_append (ds es : List Char) :
    ofDigits (ds ++ es) = 10 ^ es.length * ofDigits ds + ofDigits es := by
  simp only [ofDigits_eq, Nat.ofDigitChars_append]
  exact Nat.ofDigitChars_eq_ofDigitChars_zero

def IsUnsigned (cs : List Char) : Prop := ∀ c ∈ cs.head?, c ≠ '+' ∧ c ≠ '-'

theorem splitSign_text {cs : List Char} (h : IsUnsigned cs) (s : Sign) :
    splitSign (s.text ++ cs) = (s.isMinus, cs) := by
  cases s with
  | plus => rfl
  | minus => rfl
  | omitted =>
    rw [Sign.text, List.nil_append, splitSign]
    · rfl
    · rintro rest rfl
      exact (h _ rfl).2 rfl
    · rintro rest rfl
      exact (h _ rfl).1 rfl

theorem isUnsigned_append {ds : List Char} (hds : IsDigits ds) (hne : ds ≠ []) (rest : List Char) :
    IsUnsigned (ds ++ rest) := by
  obtain ⟨d, ds, rfl⟩ := List.exists_cons_of_ne_nil hne
  have hdigit := hds d List.mem_cons_self
  rintro c ⟨⟩
  constructor
  · rintro rfl
    exact absurd hdigit (by decide)
  · rintro rfl
    exact absurd hdigit (by decide)

theorem readInteger?_text (x : IntegerText) : readInteger? x.text = some x.value := by
  have hunsigned : IsUnsigned x.digits := by
    simpa using isUnsigned_append x.isDigits x.filled []
  have hdigits : (!x.digits.isEmpty && x.digits.all Char.isDigit) = true := by
    simpa [x.filled] using x.isDigits
  rw [readInteger?, IntegerText.text, splitSign_text hunsigned]
  exact if_pos hdigits

/-! Reading a decimal text part by part. -/

theorem takeWhile_digits {ds rest : List Char} (hds : IsDigits ds)
    (hrest : ∀ c ∈ rest.head?, c.isDigit = false) : (ds ++ rest).takeWhile Char.isDigit = ds := by
  rw [List.takeWhile_append_of_pos hds]
  cases rest with
  | nil => simp
  | cons c rest => simp [hrest c rfl]

theorem dropWhile_digits {ds rest : List Char} (hds : IsDigits ds)
    (hrest : ∀ c ∈ rest.head?, c.isDigit = false) : (ds ++ rest).dropWhile Char.isDigit = rest := by
  rw [List.dropWhile_append_of_pos hds]
  cases rest with
  | nil => rfl
  | cons c rest => simp [hrest c rfl]

theorem eq_letter_of_head? {d : DecimalText} {c : Char} (h : c ∈ d.exponentText.head?) :
    c = 'e' ∨ c = 'E' := by
  cases hexponent : d.exponent with
  | none => simp [DecimalText.exponentText, hexponent] at h
  | some e =>
    obtain rfl : e.1 = c := by simpa [DecimalText.exponentText, hexponent] using h
    exact d.letter e hexponent

theorem readExponent?_text (d : DecimalText) : readExponent? d.exponentText = some d.power := by
  cases hexponent : d.exponent with
  | none => simp [DecimalText.exponentText, DecimalText.power, hexponent, readExponent?]
  | some e =>
    obtain ⟨letter, x⟩ := e
    have hletter : letter = 'e' ∨ letter = 'E' := d.letter _ hexponent
    simp [DecimalText.exponentText, DecimalText.power, hexponent, readExponent?, hletter,
      readInteger?_text]

theorem not_isDigit_of_head?_exponent {d : DecimalText} :
    ∀ c ∈ d.exponentText.head?, c.isDigit = false := by
  intro c hc
  rcases eq_letter_of_head? hc with rfl | rfl <;> decide

theorem not_isDigit_of_head?_point {d : DecimalText} :
    ∀ c ∈ (d.pointText ++ d.exponentText).head?, c.isDigit = false := by
  cases hfraction : d.fraction with
  | none => simpa [DecimalText.pointText, hfraction] using not_isDigit_of_head?_exponent
  | some ds =>
    rintro c hc
    obtain rfl : '.' = c := by simpa [DecimalText.pointText, hfraction] using hc
    decide

theorem isUnsigned_body (d : DecimalText) :
    IsUnsigned (d.whole ++ (d.pointText ++ d.exponentText)) := by
  by_cases hwhole : d.whole = []
  · obtain ⟨ds, hfraction, -⟩ := d.filled.resolve_left (not_not.mpr hwhole)
    have hfraction : d.fraction = some ds := hfraction
    rintro c hc
    obtain rfl : '.' = c := by simpa [hwhole, DecimalText.pointText, hfraction] using hc
    decide
  · exact isUnsigned_append d.whole_isDigits hwhole _

theorem read?_text (d : DecimalText) :
    read? d.text = some ⟨d.sign.isMinus, ofDigits (d.whole ++ d.fractionDigits),
      d.power - d.fractionDigits.length⟩ := by
  have hread := readExponent?_text d
  have hfilled : (d.whole.isEmpty && d.fractionDigits.isEmpty) = false := by
    rcases d.filled with hwhole | ⟨ds, hfraction, hds⟩
    · simp [hwhole]
    · have hfraction : d.fraction = some ds := hfraction
      simp [DecimalText.fractionDigits, hfraction, hds]
  simp only [read?, DecimalText.text, splitSign_text (isUnsigned_body d),
    takeWhile_digits d.whole_isDigits not_isDigit_of_head?_point,
    dropWhile_digits d.whole_isDigits not_isDigit_of_head?_point]
  cases hfraction : d.fraction with
  | none =>
    simp only [DecimalText.pointText, DecimalText.fractionDigits, hfraction, Option.map_none,
      Option.getD_none, List.nil_append] at hfilled ⊢
    split
    · next rest hrest =>
      have hpoint : '.' ∈ d.exponentText.head? := by simp [hrest]
      exact absurd (eq_letter_of_head? hpoint) (by decide)
    · rw [hfilled, hread]
      rfl
  | some ds =>
    have hds : IsDigits ds := d.fraction_isDigits ds hfraction
    simp only [DecimalText.pointText, DecimalText.fractionDigits, hfraction, Option.map_some,
      Option.getD_some, List.cons_append, takeWhile_digits hds not_isDigit_of_head?_exponent,
      dropWhile_digits hds not_isDigit_of_head?_exponent] at hfilled ⊢
    rw [hfilled, hread]
    rfl

theorem exists_read?_text (d : DecimalText) : ∃ x, read? d.text = some x ∧ x.value = d.value := by
  refine ⟨_, read?_text d, ?_⟩
  have hpower : (10 : ℚ) ^ (d.power - d.fractionDigits.length) =
      10 ^ d.power / 10 ^ d.fractionDigits.length := by
    rw [zpow_sub₀ (by norm_num), zpow_natCast]
  have hmagnitude : (ofDigits (d.whole ++ d.fractionDigits) : ℚ) *
      10 ^ (d.power - d.fractionDigits.length) = d.magnitude := by
    rw [hpower, ofDigits_append, DecimalText.magnitude, ofDigits_eq, ofDigits_eq]
    push_cast
    field_simp
  rw [value, DecimalText.value, cast_signed, ← hmagnitude]
  split
  · exact neg_mul _ _
  · rfl

theorem readInteger?_text_eq_none {d : DecimalText} (h : d.HasPointOrExponent) :
    readInteger? d.text = none := by
  have hrest : d.pointText ++ d.exponentText ≠ [] := by
    rcases h with h | h
    · obtain ⟨ds, hds⟩ := Option.isSome_iff_exists.mp h
      simp [DecimalText.pointText, hds]
    · obtain ⟨e, he⟩ := Option.isSome_iff_exists.mp h
      simp [DecimalText.exponentText, he]
  obtain ⟨c, rest, hc⟩ := List.exists_cons_of_ne_nil hrest
  have hdigit : c.isDigit = false := @not_isDigit_of_head?_point d c (by simp [hc])
  have hall : (d.whole ++ c :: rest).all Char.isDigit = false := by simp [hdigit]
  simp only [readInteger?, DecimalText.text, splitSign_text (isUnsigned_body d)]
  rw [hc, hall, Bool.and_false, if_neg Bool.false_ne_true]

end SignalTree.Numeral
