import SignalTree.Datatype.Literal
import SignalTree.Proofs.Nearest

/-!
Bounds of integer types. What is written is the usual spelling of a number in the range of the
type, and for a bound that is given in digits, however many, it is the number given.
-/
namespace SignalTree

namespace Decimal

def IsSpelling (n : Int) (s : String) : Prop :=
  ∃ x : IntegerText, x.IsCanonical ∧ x.text = s.toList ∧ x.value = n

theorem IsSpelling.eq {n m : Int} {s : String} (hn : IsSpelling n s) (hm : IsSpelling m s) :
    n = m := by
  obtain ⟨x, -, hx, rfl⟩ := hn
  obtain ⟨y, -, hy, rfl⟩ := hm
  have hread : Numeral.readInteger? x.text = Numeral.readInteger? y.text := by rw [hx, hy]
  rw [Numeral.readInteger?_text, Numeral.readInteger?_text] at hread
  exact Option.some.inj hread

theorem head?_toDigits_ne {n : Nat} (h : 0 < n) : (Nat.toDigits 10 n).head? ≠ some '0' := by
  induction n using Nat.strongRecOn with
  | _ n ih =>
    rw [Nat.toDigits_eq_if (by decide)]
    split
    · next hn =>
      have hdigit : ∀ d : Fin 10, 0 < d.val → d.val.digitChar ≠ '0' := by decide
      simpa using hdigit ⟨n, hn⟩ h
    · rw [List.head?_append_of_ne_nil _ Nat.toDigits_ne_nil]
      exact ih (n / 10) (by omega) (by omega)

def spelled (sign : Sign) (n : Nat) : IntegerText where
  sign := sign
  digits := Nat.toDigits 10 n
  filled := Nat.toDigits_ne_nil
  isDigits _ hc := Nat.isDigit_of_mem_toDigits (by decide) (by decide) hc

theorem value_spelled (sign : Sign) (n : Nat) :
    (spelled sign n).value = Numeral.signed sign.isMinus n := by
  rw [IntegerText.value, spelled, Nat.ofDigitChars_ten_toDigits]

theorem isCanonical_spelled {sign : Sign} {n : Nat} (hsign : sign ≠ .plus)
    (hzero : n = 0 → sign = .omitted) : (spelled sign n).IsCanonical where
  sign_ne := hsign
  zero hhead := by
    obtain rfl : n = 0 := Nat.eq_zero_of_not_pos fun h => head?_toDigits_ne h hhead
    exact ⟨rfl, hzero rfl⟩

theorem isSpelling_toString (n : Int) : IsSpelling n (toString n) := by
  cases n with
  | ofNat n =>
    refine ⟨spelled .omitted n, isCanonical_spelled (by decide) fun _ => rfl, ?_, ?_⟩
    · simp [IntegerText.text, spelled, Sign.text, Int.toString_eq_repr, Int.repr]
    · exact value_spelled .omitted n
  | negSucc n =>
    refine ⟨spelled .minus (n + 1), isCanonical_spelled (by decide) (by simp), ?_, ?_⟩
    · simp [IntegerText.text, spelled, Sign.text, Int.toString_eq_repr, Int.repr]
    · exact value_spelled .minus (n + 1)

end Decimal

namespace Scalar

open Decimal

def InRange (signed : Bool) (w : Width) (n : Int) : Prop :=
  least signed w ≤ n ∧ n ≤ greatest signed w

instance (signed : Bool) (w : Width) (n : Int) : Decidable (InRange signed w n) :=
  inferInstanceAs (Decidable (_ ∧ _))

theorem literal?_integer_eq_some {signed : Bool} {w : Width} {raw s : String} :
    literal? (.integer signed w) raw = some s ↔
      ∃ n, readInteger? (Text.trim raw.toList) = some n ∧ InRange signed w n ∧ toString n = s := by
  simp only [literal?, Option.bind_eq_some_iff, Option.ite_none_right_eq_some, Option.some.injEq]
  rfl

theorem InRange.bounds {signed : Bool} {w : Width} {n : Int} (h : InRange signed w n) :
    -2 ^ 63 ≤ n ∧ n < 2 ^ 64 := by
  cases signed <;> cases w <;> simp [InRange, least, greatest, Width.bits] at h <;> omega

/-- An integer that 128 bits can hold. -/
def IsWide (n : Int) : Prop := -(Nat.pow 2 127 : Nat) ≤ n ∧ n < (Nat.pow 2 127 : Nat)

instance (n : Int) : Decidable (IsWide n) := inferInstanceAs (Decidable (_ ∧ _))

theorem InRange.isWide {signed : Bool} {w : Width} {n : Int} (h : InRange signed w n) :
    IsWide n := by
  have hbounds := h.bounds
  rw [IsWide]
  norm_num
  omega

theorem readDigits?_text (x : IntegerText) :
    readDigits? x.text = if IsWide x.value then some x.value else none := by
  rw [readDigits?, Numeral.readInteger?_text, Option.filter]
  simp only [decide_eq_true_eq]
  rfl

theorem roundsTo_read (d : DecimalText) :
    Binary.RoundsTo d.value ((Numeral.read? d.text).bind Binary.ofNumeral?) := by
  obtain ⟨x, hx, hvalue⟩ := Numeral.exists_read?_text d
  rw [hx, Option.bind_some, ← hvalue]
  exact Binary.roundsTo_ofNumeral? x

def wideLimit : Binary := ⟨false, 2 ^ 52, 75⟩

theorem isDouble_wideLimit : wideLimit.IsDouble :=
  ⟨by decide, .inr (by decide), by decide, by decide⟩

theorem value_wideLimit : wideLimit.value = 2 ^ 127 := by
  rw [Binary.value, wideLimit]
  norm_num [Numeral.signed]

theorem wholeLimit_le_natAbs {b : Binary} {x : ℚ} (h : b.IsNearest x) (hx : 2 ^ 127 ≤ |x|) {n : Int}
    (hn : b.value = n) : wholeLimit ≤ n.natAbs := by
  have hle := h.le_abs_value isDouble_wideLimit (value_wideLimit.trans_le hx)
  rw [value_wideLimit, hn] at hle
  have hnat : 2 ^ 127 ≤ n.natAbs := by
    zify
    exact_mod_cast hle
  have hbelow : wholeLimit ≤ 2 ^ 127 := by decide
  exact hbelow.trans hnat

theorem readWhole?_text {d : DecimalText} {n : Int} :
    readWhole? d.text = some n ↔
      (∃ b : Binary, b.IsNearest d.value ∧ b.value = n) ∧ n.natAbs < wholeLimit := by
  have hrounds := roundsTo_read d
  rw [readWhole?, Option.filter_eq_some_iff, Option.bind_eq_some_iff, decide_eq_true_iff]
  refine and_congr_left fun hlimit => ?_
  constructor
  · rintro ⟨b, hb, hn⟩
    rw [hb] at hrounds
    exact ⟨b, hrounds, Binary.toInt?_eq_some.mp hn⟩
  · rintro ⟨b, hnearest, hn⟩
    cases hanswer : (Numeral.read? d.text).bind Binary.ofNumeral? with
    | some c =>
      rw [hanswer] at hrounds
      exact ⟨c, rfl, Binary.toInt?_eq_some.mpr ((hrounds.unique hnearest).trans hn)⟩
    | none =>
      rw [hanswer] at hrounds
      have habove := (hrounds wideLimit isDouble_wideLimit).le
      rw [value_wideLimit] at habove
      exact absurd hlimit (not_lt.mpr (wholeLimit_le_natAbs hnearest habove hn))

theorem readWhole?_of_not_isWide {x : IntegerText} (h : ¬ IsWide x.value) :
    readWhole? x.text = none := by
  refine Option.eq_none_iff_forall_ne_some.mpr fun n hn => ?_
  rw [← DecimalText.text_ofInteger, readWhole?_text, DecimalText.value_ofInteger] at hn
  obtain ⟨⟨b, hnearest, hvalue⟩, hlimit⟩ := hn
  have habs : (2 : Int) ^ 127 ≤ |x.value| := by
    rw [IsWide, Nat.pow_eq, Nat.cast_pow, Nat.cast_ofNat] at h
    rw [le_abs]
    omega
  exact absurd hlimit (not_lt.mpr
    (wholeLimit_le_natAbs hnearest (by exact_mod_cast habs) hvalue))

theorem readInteger?_text (x : IntegerText) :
    readInteger? x.text = if IsWide x.value then some x.value else none := by
  rw [readInteger?, readDigits?_text]
  split
  · rfl
  · next h => exact readWhole?_of_not_isWide h

end Scalar

namespace ValueType

open Decimal Scalar

theorem boundLiteral?_of_bounded {t : ValueType} {s : Scalar} (h : t.bounded? = some s)
    (raw : String) : t.boundLiteral? raw = s.literal? raw := by
  rw [boundLiteral?, h]
  rfl

/-- A bound of an integer type is a number in its range, spelled as usual. One that is given in
digits is kept exactly if it is in the range. -/
theorem integer_bound {t : ValueType} {signed : Bool} {w : Width}
    (ht : t.bounded? = some (.integer signed w)) (raw : String) :
    (∀ s, t.boundLiteral? raw = some s → ∃ n, InRange signed w n ∧ IsSpelling n s) ∧
      ∀ x : IntegerText, Text.trim raw.toList = x.text →
        ((∃ s, t.boundLiteral? raw = some s) ↔ InRange signed w x.value) ∧
          ∀ s, t.boundLiteral? raw = some s → IsSpelling x.value s := by
  simp only [boundLiteral?_of_bounded ht, literal?_integer_eq_some]
  constructor
  · rintro s ⟨n, -, hrange, rfl⟩
    exact ⟨n, hrange, isSpelling_toString n⟩
  · intro x hx
    simp only [hx, readInteger?_text, Option.ite_none_right_eq_some, Option.some_inj]
    constructor
    · constructor
      · rintro ⟨s, n, ⟨-, rfl⟩, hrange, -⟩
        exact hrange
      · intro hrange
        exact ⟨_, x.value, ⟨hrange.isWide, rfl⟩, hrange, rfl⟩
    · rintro s ⟨n, ⟨-, rfl⟩, -, rfl⟩
      exact isSpelling_toString _

def paddedLeast : IntegerText where
  sign := .minus
  digits := List.replicate 40 '0' ++ "9223372036854775808".toList
  filled := by decide
  isDigits := isDigits_of_all (by decide)

def greatestUnsigned : IntegerText where
  sign := .plus
  digits := "340282366920938463463374607431768211455".toList
  filled := by decide
  isDigits := isDigits_of_all (by decide)

theorem integer_bound_int64 :
    (array (.integer true .bits64)).bounded? = some (.integer true .bits64) ∧
      (∃ s, (array (.integer true .bits64)).boundLiteral?
        " -00000000000000000000000000000000000000009223372036854775808" = some s ∧
          IsSpelling (-9223372036854775808) s) ∧
        (array (.integer true .bits64)).boundLiteral?
          "+340282366920938463463374607431768211455\t" = none := by
  have ht : (array (.integer true .bits64)).bounded? = some (.integer true .bits64) := rfl
  have hleast : paddedLeast.value = -9223372036854775808 := by decide
  have hgreatest : greatestUnsigned.value = 340282366920938463463374607431768211455 := by decide
  refine ⟨ht, ?_, ?_⟩
  · obtain ⟨hiff, hspelling⟩ := (integer_bound ht
      " -00000000000000000000000000000000000000009223372036854775808").2 paddedLeast (by decide)
    rw [hleast] at hiff hspelling
    obtain ⟨s, hs⟩ := hiff.mpr (by decide)
    exact ⟨s, hs, hspelling s hs⟩
  · obtain ⟨hiff, -⟩ := (integer_bound ht
      "+340282366920938463463374607431768211455\t").2 greatestUnsigned (by decide)
    rw [hgreatest] at hiff
    exact Option.eq_none_iff_forall_ne_some.mpr fun s hs => absurd (hiff.mp ⟨s, hs⟩) (by decide)

end ValueType

end SignalTree
