import SignalTree.Proofs.Rounding

/-!
Reading a decimal number as the nearest 64-bit floating point number. The exponent comes from the
sizes of numerator and denominator, the mantissa from a division, and what is too great for any
number is not read.
-/
namespace SignalTree

namespace Numeral

/-! The size of a numeral. -/

theorem abs_value (x : Numeral) : |x.value| = x.coefficient * 10 ^ x.exponent := by
  have hpos : (0 : ℚ) < 10 ^ x.exponent := zpow_pos (by norm_num) _
  rw [value, cast_signed, abs_mul, abs_of_pos hpos]
  split
  · rw [abs_neg, Nat.abs_cast]
  · rw [Nat.abs_cast]

theorem abs_value_lt (x : Numeral) : |x.value| < 10 ^ x.order := by
  have hlength : 0 < (Nat.toDigits 10 x.coefficient).length :=
    List.length_pos_of_ne_nil Nat.toDigits_ne_nil
  have hpos : (0 : ℚ) < 10 ^ x.exponent := zpow_pos (by norm_num) _
  have hlt : (x.coefficient : ℚ) < 10 ^ (Nat.toDigits 10 x.coefficient).length := by
    exact_mod_cast (Nat.length_toDigits_le_iff (by decide) hlength).mp le_rfl
  rw [abs_value, order, zpow_add₀ (by norm_num), zpow_natCast]
  exact mul_lt_mul_of_pos_right hlt hpos

theorem le_abs_value {x : Numeral} (hx : 0 < x.coefficient) : 10 ^ (x.order - 1) ≤ |x.value| := by
  obtain ⟨k, hk⟩ : ∃ k, (Nat.toDigits 10 x.coefficient).length = k + 1 :=
    Nat.exists_eq_add_one.mpr (List.length_pos_of_ne_nil Nat.toDigits_ne_nil)
  have hle : 10 ^ k ≤ x.coefficient := by
    by_cases hzero : k = 0
    · rwa [hzero]
    · rw [← not_lt, ← Nat.length_toDigits_le_iff (by decide) (Nat.pos_of_ne_zero hzero), hk]
      omega
  have horder : x.order - 1 = k + x.exponent := by
    rw [order, hk]
    omega
  have hpos : (0 : ℚ) < 10 ^ x.exponent := zpow_pos (by norm_num) _
  rw [abs_value, horder, zpow_add₀ (by norm_num), zpow_natCast]
  exact mul_le_mul_of_nonneg_right (by exact_mod_cast hle) hpos.le

theorem two_zpow_le_ten_zpow {e : Int} (he : 0 ≤ e) : (2 : ℚ) ^ (3 * e) ≤ 10 ^ e := by
  rw [zpow_mul]
  exact zpow_le_zpow_left₀ he (by norm_num) (by norm_num)

theorem abs_value_lt_of_order {x : Numeral} (h : x.order < -400) :
    |x.value| < 2 ^ (Binary.leastExponent - 1) :=
  calc |x.value|
    _ < 10 ^ x.order := abs_value_lt x
    _ ≤ 2 ^ (3 * x.order) := by
      have hpower := two_zpow_le_ten_zpow (e := -x.order) (by omega)
      have hinv := inv_anti₀ (Binary.two_zpow_pos _) hpower
      rwa [← zpow_neg, ← zpow_neg, neg_neg, mul_neg, neg_neg] at hinv
    _ ≤ 2 ^ (Binary.leastExponent - 1) := by
      gcongr
      · exact one_le_two
      · rw [Binary.leastExponent]
        omega

theorem lt_abs_value_of_order {x : Numeral} (hx : 0 < x.coefficient) (h : 400 < x.order) :
    2 ^ Binary.mantissaBits * 2 ^ Binary.greatestExponent < |x.value| :=
  calc (2 : ℚ) ^ Binary.mantissaBits * 2 ^ Binary.greatestExponent
    _ = 2 ^ (Binary.mantissaBits + Binary.greatestExponent) := by
      rw [zpow_add₀ two_ne_zero, zpow_natCast]
    _ < 2 ^ (3 * (x.order - 1)) := by
      gcongr
      · exact one_lt_two
      · rw [Binary.mantissaBits, Binary.greatestExponent]
        omega
    _ ≤ 10 ^ (x.order - 1) := two_zpow_le_ten_zpow (by omega)
    _ ≤ |x.value| := le_abs_value hx

theorem value_of_nonneg {x : Numeral} (h : 0 ≤ x.exponent) :
    x.value = signed x.negative (x.coefficient * Nat.pow 10 x.exponent.toNat) / (1 : Nat) := by
  rw [value, signed_mul, Int.cast_mul, Int.cast_natCast, Binary.cast_pow_toNat 10 h,
    Nat.cast_ofNat, Nat.cast_one, div_one]

theorem value_of_neg {x : Numeral} (h : x.exponent < 0) :
    x.value = signed x.negative x.coefficient / (Nat.pow 10 (-x.exponent).toNat : Nat) := by
  rw [value, Binary.cast_pow_neg_toNat 10 h, Nat.cast_ofNat, div_inv_eq_mul]

end Numeral

namespace Binary

open Numeral (signed cast_signed signed_mul natAbs_signed)

/-! The exponent. -/

theorem scaleDown_pos {n d : Nat} (hd : 0 < d) (e : Int) : 0 < (scaleDown n d e).2 := by
  unfold scaleDown
  split
  · exact hd
  · exact Nat.mul_pos hd (Nat.pow_pos two_pos)

theorem scaleDown_div (n d : Nat) (e : Int) :
    ((scaleDown n d e).1 : ℚ) / (scaleDown n d e).2 = n / d / 2 ^ e := by
  unfold scaleDown
  split
  · next h =>
    rw [Nat.cast_mul, cast_pow_neg_toNat 2 h, Nat.cast_ofNat]
    ring
  · next h =>
    rw [Nat.cast_mul, cast_pow_toNat 2 (not_lt.mp h), Nat.cast_ofNat, div_div]

theorem div_two_zpow_add_one (q : ℚ) (e : Int) : q / 2 ^ (e + 1) = q / 2 ^ e / 2 := by
  rw [zpow_add_one₀ two_ne_zero, div_mul_eq_div_div]

/-- A quotient is the power of two that the bits of its parts tell, up to a factor of two. -/
theorem div_bounds {n d : Nat} (hn : 0 < n) (hd : 0 < d) :
    (2 : ℚ) ^ ((n.log2 : Int) - d.log2 - 1) ≤ n / d ∧
      (n / d : ℚ) < 2 ^ ((n.log2 : Int) - d.log2 + 1) := by
  have hdq : (0 : ℚ) < d := by exact_mod_cast hd
  have hn₁ : (2 : ℚ) ^ n.log2 ≤ n := by exact_mod_cast Nat.log2_self_le hn.ne'
  have hn₂ : (n : ℚ) < 2 ^ (n.log2 + 1) := by exact_mod_cast Nat.lt_log2_self
  have hd₁ : (2 : ℚ) ^ d.log2 ≤ d := by exact_mod_cast Nat.log2_self_le hd.ne'
  have hd₂ : (d : ℚ) < 2 ^ (d.log2 + 1) := by exact_mod_cast Nat.lt_log2_self
  constructor
  · rw [le_div_iff₀ hdq]
    calc (2 : ℚ) ^ ((n.log2 : Int) - d.log2 - 1) * d
      _ ≤ 2 ^ ((n.log2 : Int) - d.log2 - 1) * 2 ^ (d.log2 + 1) := by gcongr
      _ = 2 ^ n.log2 := by
        rw [← zpow_natCast, ← zpow_natCast, ← zpow_add₀ two_ne_zero]
        congr 1
        omega
      _ ≤ n := hn₁
  · rw [div_lt_iff₀ hdq]
    calc (n : ℚ)
      _ < 2 ^ (n.log2 + 1) := hn₂
      _ = 2 ^ ((n.log2 : Int) - d.log2 + 1) * 2 ^ d.log2 := by
        rw [← zpow_natCast, ← zpow_natCast, ← zpow_add₀ two_ne_zero]
        congr 1
        omega
      _ ≤ 2 ^ ((n.log2 : Int) - d.log2 + 1) * d := by gcongr

theorem exists_exponentFor_eq {n d : Nat} (hn : 0 < n) (hd : 0 < d) :
    ∃ e, exponentFor n d = max e leastExponent ∧
      2 ^ (mantissaBits - 1) ≤ (n / d : ℚ) / 2 ^ e ∧ (n / d : ℚ) / 2 ^ e < 2 ^ mantissaBits := by
  obtain ⟨hlower, hupper⟩ := div_bounds hn hd
  obtain ⟨guess, hguess⟩ : ∃ guess : Int, (n.log2 : Int) - d.log2 - mantissaBits = guess := ⟨_, rfl⟩
  have hfull : 2 ^ (mantissaBits - 1) ≤ (n / d : ℚ) / 2 ^ guess := by
    have hbits : ((mantissaBits - 1 : Nat) : Int) + guess = n.log2 - d.log2 - 1 := by
      rw [← hguess, mantissaBits]
      omega
    rwa [le_div_iff₀ (two_zpow_pos _), ← zpow_natCast, ← zpow_add₀ two_ne_zero, hbits]
  have htwice : (n / d : ℚ) / 2 ^ guess < 2 * 2 ^ mantissaBits := by
    have hbits : ((mantissaBits + 1 : Nat) : Int) + guess = n.log2 - d.log2 + 1 := by
      rw [← hguess, mantissaBits]
      omega
    rwa [div_lt_iff₀ (two_zpow_pos _), ← pow_succ', ← zpow_natCast, ← zpow_add₀ two_ne_zero,
      hbits]
  have hcompare : (scaleDown n d guess).2 * Nat.pow 2 mantissaBits ≤ (scaleDown n d guess).1 ↔
      2 ^ mantissaBits ≤ (n / d : ℚ) / 2 ^ guess := by
    have hpos : (0 : ℚ) < (scaleDown n d guess).2 := by exact_mod_cast scaleDown_pos hd guess
    rw [← scaleDown_div, le_div_iff₀ hpos, mul_comm, Nat.pow_eq]
    exact_mod_cast Iff.rfl
  refine ⟨if (scaleDown n d guess).2 * Nat.pow 2 mantissaBits ≤ (scaleDown n d guess).1 then
    guess + 1 else guess, by rw [exponentFor, hguess], ?_⟩
  simp only [hcompare]
  split
  · next hover =>
    rw [div_two_zpow_add_one, mantissaBits] at *
    constructor <;> linarith
  · next hfits => exact ⟨hfull, not_le.mp hfits⟩

theorem exponentFor_spec {n d : Nat} (hn : 0 < n) (hd : 0 < d) :
    leastExponent ≤ exponentFor n d ∧
      (n / d : ℚ) / 2 ^ exponentFor n d < 2 ^ mantissaBits ∧
        (exponentFor n d = leastExponent ∨
          2 ^ (mantissaBits - 1) ≤ (n / d : ℚ) / 2 ^ exponentFor n d) := by
  obtain ⟨e, heq, hfull, hlt⟩ := exists_exponentFor_eq hn hd
  rw [heq]
  rcases le_total e leastExponent with he | he
  · rw [max_eq_right he]
    refine ⟨le_rfl, lt_of_le_of_lt ?_ hlt, .inl rfl⟩
    gcongr
    exact one_le_two
  · rw [max_eq_left he]
    exact ⟨he, hlt, .inr hfull⟩

/-! The mantissa. -/

theorem value_carried (m : Nat) (e : Int) : (carried false m e).value = m * 2 ^ e := by
  unfold carried
  split
  · next hm =>
    rw [hm, value, cast_signed, zpow_add₀ two_ne_zero, mantissaBits, Nat.pow_eq]
    norm_num
    ring
  · simp [value, cast_signed]

theorem even_carried {m : Nat} (h : Even m) (e : Int) : Even (carried false m e).mantissa := by
  unfold carried
  split
  · next hm =>
    have hhalf : Even (Nat.pow 2 mantissaBits / 2) := by decide
    rwa [hm]
  · exact h

theorem isDouble_carried {m : Nat} {e : Int} (hm : m ≤ 2 ^ mantissaBits)
    (hleast : leastExponent ≤ e) (hfull : e = leastExponent ∨ 2 ^ (mantissaBits - 1) ≤ m)
    (hgreatest : (carried false m e).exponent ≤ greatestExponent) :
    (carried false m e).IsDouble := by
  unfold carried at *
  split at hgreatest
  · next hcarry =>
    have hhalf : Nat.pow 2 mantissaBits / 2 < 2 ^ mantissaBits ∧
        2 ^ (mantissaBits - 1) ≤ Nat.pow 2 mantissaBits / 2 := by decide
    rw [if_pos hcarry, hcarry]
    exact ⟨hhalf.1, .inr hhalf.2, Int.le_add_one hleast, hgreatest⟩
  · next hfits =>
    rw [if_neg hfits]
    exact ⟨lt_of_le_of_ne hm hfits, hfull, hleast, hgreatest⟩

theorem value_lt_of_carried {c : Binary} (hc : c.IsDouble) {x : ℚ} {m : Nat} {e : Int}
    (hnear : |x / 2 ^ e - m| ≤ 1 / 2)
    (hfull : e = leastExponent ∨ 2 ^ (mantissaBits - 1) ≤ x / 2 ^ e)
    (hover : greatestExponent < (carried false m e).exponent) : c.value < x := by
  have hpos : (0 : ℚ) < 2 ^ mantissaBits - 1 := by norm_num [mantissaBits]
  refine lt_of_le_of_lt hc.value_le ?_
  unfold carried at hover
  split at hover
  · next hm =>
    have hlower : (2 ^ mantissaBits - 1 : ℚ) < x / 2 ^ e := by
      rw [hm, Nat.pow_eq] at hnear
      push_cast at hnear
      linarith [neg_abs_le (x / 2 ^ e - 2 ^ mantissaBits)]
    calc (2 ^ mantissaBits - 1 : ℚ) * 2 ^ greatestExponent
      _ ≤ (2 ^ mantissaBits - 1) * 2 ^ e := by
        gcongr
        · exact one_le_two
        · exact Int.lt_add_one_iff.mp hover
      _ < x := (lt_div_iff₀ (two_zpow_pos e)).mp hlower
  · have he : greatestExponent ≤ e - 1 := Int.le_sub_one_of_lt hover
    have hlower := hfull.resolve_left fun hleast => by
      rw [hleast] at he
      exact absurd he (by decide)
    calc (2 ^ mantissaBits - 1 : ℚ) * 2 ^ greatestExponent
      _ ≤ (2 ^ mantissaBits - 1) * 2 ^ (e - 1) := by
        gcongr
        exact one_le_two
      _ < 2 ^ mantissaBits * 2 ^ (e - 1) := by
        gcongr
        linarith
      _ = 2 ^ (mantissaBits - 1) * 2 ^ e := by
        rw [zpow_sub_one₀ two_ne_zero, mantissaBits]
        ring
      _ ≤ x := (le_div_iff₀ (two_zpow_pos e)).mp hlower

/-! Fractions. -/

theorem carried_true (m : Nat) (e : Int) : carried true m e = (carried false m e).negate := by
  unfold carried
  split <;> rfl

theorem negate_of_fits (b : Binary) :
    (if b.negate.exponent ≤ greatestExponent then some b.negate else none) =
      (if b.exponent ≤ greatestExponent then some b else none).map negate := by
  rw [apply_ite (Option.map negate)]
  rfl

theorem ofFraction?_true (n d : Nat) :
    ofFraction? true n d = (ofFraction? false n d).map negate := by
  unfold ofFraction?
  dsimp only
  rw [carried_true]
  exact negate_of_fits _

theorem roundsTo_of_pos {n d : Nat} (hn : 0 < n) (hd : 0 < d) :
    RoundsTo (n / d) (ofFraction? false n d) := by
  obtain ⟨hleast, hlt, hfull⟩ := exponentFor_spec hn hd
  unfold ofFraction?
  dsimp only
  generalize exponentFor n d = e at *
  obtain ⟨hnear, htie⟩ := @abs_sub_divNearest_le (scaleDown n d e).1 _ (scaleDown_pos hd e)
  rw [scaleDown_div, ← mantissaAt] at hnear htie
  generalize mantissaAt n d e = m at *
  have hm : m ≤ 2 ^ mantissaBits := by
    rw [← Nat.lt_add_one_iff, ← Nat.cast_lt (α := ℚ)]
    push_cast
    linarith [neg_abs_le ((n / d : ℚ) / 2 ^ e - m)]
  have hm' : e = leastExponent ∨ 2 ^ (mantissaBits - 1) ≤ m := by
    refine hfull.imp_right fun h => ?_
    rw [← Nat.lt_add_one_iff, ← Nat.cast_lt (α := ℚ)]
    push_cast
    linarith [le_abs_self ((n / d : ℚ) / 2 ^ e - m)]
  split
  · next hgreatest =>
    exact isNearest_of_multiple (isDouble_carried hm hleast hm' hgreatest) (value_carried m e)
      (fun h => even_carried h e) hnear htie hfull
  · next hover =>
    intro c hc
    exact (value_lt_of_carried hc hnear hfull (not_le.mp hover)).trans_le (le_abs_self _)

theorem roundsTo_ofFraction? (negative : Bool) {n d : Nat} (hn : 0 < n) (hd : 0 < d) :
    RoundsTo (signed negative n / d) (ofFraction? negative n d) := by
  rw [cast_signed]
  cases negative with
  | false => exact roundsTo_of_pos hn hd
  | true =>
    rw [ofFraction?_true, if_pos rfl, neg_div]
    exact (roundsTo_of_pos hn hd).negate

theorem isNearest_zero (negative : Bool) {x : ℚ} (hx : |x| < 2 ^ (leastExponent - 1)) :
    (zero negative).IsNearest x := by
  have hnear : |x / 2 ^ leastExponent - (0 : Nat)| < 1 / 2 := by
    rw [Nat.cast_zero, sub_zero, abs_div, abs_of_pos (two_zpow_pos _),
      div_lt_iff₀ (two_zpow_pos _)]
    rw [zpow_sub_one₀ two_ne_zero] at hx
    linarith
  have hvalue : (zero negative).value = (0 : Nat) * 2 ^ leastExponent := by
    rw [value_zero, Nat.cast_zero, zero_mul]
  exact isNearest_of_multiple (isDouble_zero negative) hvalue id hnear.le (fun _ => Even.zero)
    (.inl rfl)

/-- A decimal number is rounded to a nearest one of 64 bits. -/
theorem roundsTo_ofNumeral? (x : Numeral) : RoundsTo x.value (ofNumeral? x) := by
  unfold ofNumeral?
  split
  · next hsmall =>
    refine isNearest_zero x.negative (hsmall.elim (fun hzero => ?_) Numeral.abs_value_lt_of_order)
    rw [Numeral.abs_value, hzero, Nat.cast_zero, zero_mul]
    exact two_zpow_pos _
  next hfilled =>
  have hcoefficient : 0 < x.coefficient := Nat.pos_of_ne_zero fun h => hfilled (.inl h)
  split
  · next horder =>
    intro c hc
    have hgreatest : c.value ≤ 2 ^ mantissaBits * 2 ^ greatestExponent := by
      have hpos := two_zpow_pos greatestExponent
      linarith [hc.value_le]
    exact hgreatest.trans_lt (Numeral.lt_abs_value_of_order hcoefficient horder)
  split
  · next hexponent =>
    rw [Numeral.value_of_nonneg hexponent]
    exact roundsTo_ofFraction? _ (Nat.mul_pos hcoefficient (Nat.pow_pos (by decide))) one_pos
  · next hexponent =>
    rw [Numeral.value_of_neg (not_le.mp hexponent)]
    exact roundsTo_ofFraction? _ hcoefficient (Nat.pow_pos (by decide))

/-! Integers. -/

theorem toInt?_eq_some {b : Binary} {n : Int} : b.toInt? = some n ↔ b.value = n := by
  unfold toInt?
  split
  · next hexponent =>
    have hvalue : b.value = signed b.negative (b.mantissa * Nat.pow 2 b.exponent.toNat) := by
      rw [value, signed_mul, Int.cast_mul, Int.cast_natCast, cast_pow_toNat 2 hexponent,
        Nat.cast_ofNat]
    rw [hvalue, Int.cast_inj, Option.some_inj]
  · next hexponent =>
    dsimp only
    have hunit : 0 < Nat.pow 2 (-b.exponent).toNat := Nat.pow_pos two_pos
    have hpower := cast_pow_neg_toNat 2 (not_le.mp hexponent)
    generalize Nat.pow 2 (-b.exponent).toNat = unit at *
    have hiff : b.value = n ↔ signed b.negative b.mantissa = n * unit := by
      rw [value, ← inv_inv ((2 : ℚ) ^ b.exponent), ← Nat.cast_ofNat, ← hpower, ← div_eq_mul_inv,
        div_eq_iff (by exact_mod_cast hunit.ne')]
      exact_mod_cast Iff.rfl
    rw [hiff]
    split
    · next hdvd =>
      have hmantissa : b.mantissa / unit * unit = b.mantissa :=
        Nat.div_mul_cancel (Nat.dvd_of_mod_eq_zero hdvd)
      have hne : (unit : Int) ≠ 0 := by exact_mod_cast hunit.ne'
      rw [← hmantissa, signed_mul, mul_left_inj' hne, Nat.mul_div_cancel _ hunit, Option.some_inj]
    · next hdvd =>
      refine iff_of_false (Option.some_ne_none _).symm fun h => hdvd ?_
      have hmantissa : b.mantissa = n.natAbs * unit := by
        rw [← natAbs_signed b.negative b.mantissa, h, Int.natAbs_mul, Int.natAbs_natCast]
      rw [hmantissa, Nat.mul_mod_left]

end Binary

end SignalTree
