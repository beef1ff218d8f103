import SignalTree.Proofs.IntegerBounds

/-!
Bounds of integer types in other notations than digits. They are rounded to 64 bits before it is
asked whether they are integers, so that a bound is kept as it is written exactly if 64 bits can
hold it.
-/
namespace SignalTree

namespace Scalar

open Decimal Binary

theorem InRange.natAbs_lt {signed : Bool} {w : Width} {n : Int} (h : InRange signed w n) :
    n.natAbs < wholeLimit := by
  have hbounds := h.bounds
  have hlimit : 2 ^ 64 ≤ wholeLimit := by decide
  omega

theorem readInteger?_of_hasPointOrExponent {d : DecimalText} (h : d.HasPointOrExponent) :
    readInteger? d.text = readWhole? d.text := by
  rw [readInteger?, readDigits?, Numeral.readInteger?_text_eq_none h]
  rfl

end Scalar

namespace ValueType

open Decimal Scalar Binary

/-- A bound of an integer type that has a point or an exponent is an integer in the range exactly
if the nearest number of 64 bits is that. It is the number given exactly if 64 bits can hold it. -/
theorem decimal_bound {t : ValueType} {signed : Bool} {w : Width}
    (ht : t.bounded? = some (.integer signed w)) {raw : String} {d : DecimalText}
    (hd : d.HasPointOrExponent) (hraw : Text.trim raw.toList = d.text) :
    (∀ n : Int, (∃ s, t.boundLiteral? raw = some s ∧ IsSpelling n s) ↔
        InRange signed w n ∧ ∃ b : Binary, b.IsNearest d.value ∧ b.value = n) ∧
      ∀ s, t.boundLiteral? raw = some s →
        ∃ n : Int, IsSpelling n s ∧ (d.value = n ↔ IsRepresentable d.value) := by
  simp only [boundLiteral?_of_bounded ht, literal?_integer_eq_some, hraw,
    readInteger?_of_hasPointOrExponent hd, readWhole?_text]
  constructor
  · intro n
    constructor
    · rintro ⟨s, ⟨m, ⟨hnearest, -⟩, hrange, rfl⟩, hspelling⟩
      rw [hspelling.eq (isSpelling_toString m)]
      exact ⟨hrange, hnearest⟩
    · rintro ⟨hrange, hnearest⟩
      exact ⟨toString n, ⟨n, ⟨hnearest, hrange.natAbs_lt⟩, hrange, rfl⟩, isSpelling_toString n⟩
  · rintro s ⟨n, ⟨⟨b, hnearest, hvalue⟩, -⟩, -, rfl⟩
    refine ⟨n, isSpelling_toString n, fun hn => ?_, fun hrepresentable => ?_⟩
    · exact ⟨b, hnearest.isDouble, hvalue.trans hn.symm⟩
    · exact (hnearest.value_eq hrepresentable).symm.trans hvalue

def hundred : DecimalText :=
  DecimalText.pointed "100".toList "0".toList (isDigits_of_all (by decide))
    (isDigits_of_all (by decide)) (by decide)

theorem decimal_bound_hundred :
    (scalar (.integer false .bits8)).bounded? = some (.integer false .bits8) ∧
      hundred.HasPointOrExponent ∧ Text.trim " 100.0".toList = hundred.text ∧
        ∃ s, (scalar (.integer false .bits8)).boundLiteral? " 100.0" = some s ∧
          IsSpelling 100 s := by
  have ht : (scalar (.integer false .bits8)).bounded? = some (.integer false .bits8) := rfl
  have hpoint : hundred.HasPointOrExponent := .inl rfl
  have hraw : Text.trim " 100.0".toList = hundred.text := by decide
  have hvalue : hundred.value = (100 : Int) := by
    have hwhole : Nat.ofDigitChars 10 "100".toList 0 = 100 := by decide
    have hfraction : Nat.ofDigitChars 10 "0".toList 0 = 0 := by decide
    rw [hundred, DecimalText.value_pointed, hwhole, hfraction]
    norm_num
  have hnearest : ∃ b : Binary, b.IsNearest hundred.value ∧ b.value = (100 : Int) := by
    rw [hvalue]
    exact (isRepresentable_intCast (by decide)).exists_isNearest
  exact ⟨ht, hpoint, hraw, ((decimal_bound ht hpoint hraw).1 100).mpr ⟨by decide, hnearest⟩⟩

def nines : DecimalText :=
  DecimalText.pointed "0".toList "99999999999999999999".toList (isDigits_of_all (by decide))
    (isDigits_of_all (by decide)) (by decide)

def oddInteger : DecimalText :=
  DecimalText.pointed "9007199254740993".toList "0".toList (isDigits_of_all (by decide))
    (isDigits_of_all (by decide)) (by decide)

/-- A bound with a fractional part is rounded to an integer, and an integer to another one. -/
theorem decimal_bound_altered :
    (nines.text = "0.99999999999999999999".toList ∧
        (scalar (.integer false .bits8)).boundLiteral? "0.99999999999999999999" = some "1" ∧
          ∀ n : Int, nines.value ≠ n) ∧
      oddInteger.text = "9007199254740993.0".toList ∧
        (scalar (.integer true .bits64)).boundLiteral? "9007199254740993.0" =
          some "9007199254740992" ∧
          ∀ n : Int, oddInteger.value = n → ¬ IsSpelling n "9007199254740992" := by
  refine ⟨⟨by decide, by decide +kernel, fun n hn => ?_⟩, by decide, by decide +kernel,
    fun n hn hspelling => ?_⟩
  · have hwhole : Nat.ofDigitChars 10 "0".toList 0 = 0 := by decide
    have hfraction : Nat.ofDigitChars 10 "99999999999999999999".toList 0 =
        99999999999999999999 := by decide
    have hlength : "99999999999999999999".toList.length = 20 := by decide
    rw [nines, DecimalText.value_pointed, hwhole, hfraction, hlength] at hn
    have hpos : (0 : ℚ) < n := by
      rw [← hn]
      norm_num
    have hlt : (n : ℚ) < 1 := by
      rw [← hn]
      norm_num
    have hpos' : 0 < n := by exact_mod_cast hpos
    have hlt' : n < 1 := by exact_mod_cast hlt
    omega
  · have hwhole : Nat.ofDigitChars 10 "9007199254740993".toList 0 = 9007199254740993 := by decide
    have hfraction : Nat.ofDigitChars 10 "0".toList 0 = 0 := by decide
    rw [oddInteger, DecimalText.value_pointed, hwhole, hfraction] at hn
    have hodd : n = 9007199254740993 := by
      have hcast : (n : ℚ) = 9007199254740993 := by
        rw [← hn]
        norm_num
      exact_mod_cast hcast
    have heven : n = 9007199254740992 := hspelling.eq (isSpelling_toString 9007199254740992)
    omega

end ValueType

end SignalTree
