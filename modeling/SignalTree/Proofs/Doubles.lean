import Mathlib.Algebra.Field.Rat
import Mathlib.Algebra.Order.Field.Power
import Mathlib.Algebra.Order.Ring.Unbundled.Rat
import Mathlib.Tactic.FieldSimp
import Mathlib.Tactic.Linarith
import Mathlib.Tactic.NormNum
import Mathlib.Tactic.Positivity
import Mathlib.Tactic.Ring
import SignalTree.Decimal.Binary
import SignalTree.Proofs.DecimalText

/-!
The 64-bit floating point numbers as rational numbers: their sizes, and the gaps between them.
-/
namespace SignalTree.Binary

open Numeral (signed cast_signed natAbs_signed)

def value (b : Binary) : ℚ := signed b.negative b.mantissa * 2 ^ b.exponent

/-- A number that 64 bits can hold. -/
structure IsDouble (b : Binary) : Prop where
  mantissa_lt : b.mantissa < 2 ^ mantissaBits
  full : b.exponent = leastExponent ∨ 2 ^ (mantissaBits - 1) ≤ b.mantissa
  least_le : leastExponent ≤ b.exponent
  le_greatest : b.exponent ≤ greatestExponent

theorem isDouble_zero (negative : Bool) : (zero negative).IsDouble :=
  ⟨Nat.two_pow_pos _, .inl rfl, le_rfl, (by decide : leastExponent ≤ greatestExponent)⟩

@[simp]
theorem value_zero (negative : Bool) : (zero negative).value = 0 := by
  simp [value, zero, cast_signed]

def IsRepresentable (x : ℚ) : Prop := ∃ c : Binary, c.IsDouble ∧ c.value = x

/-! Powers of natural numbers, with exponents of both signs. -/

theorem cast_pow_toNat (b : Nat) {e : Int} (h : 0 ≤ e) :
    (Nat.pow b e.toNat : Nat) = (b : ℚ) ^ e := by
  rw [Nat.pow_eq, Nat.cast_pow, ← zpow_natCast, Int.toNat_of_nonneg h]

theorem cast_pow_neg_toNat (b : Nat) {e : Int} (h : e < 0) :
    (Nat.pow b (-e).toNat : Nat) = ((b : ℚ) ^ e)⁻¹ := by
  rw [cast_pow_toNat b (by omega), zpow_neg]

theorem two_zpow_pos (e : Int) : (0 : ℚ) < 2 ^ e := zpow_pos two_pos e

/-! The size of a number. -/

theorem abs_value (b : Binary) : |b.value| = b.mantissa * 2 ^ b.exponent := by
  rw [value, cast_signed, abs_mul, abs_of_pos (two_zpow_pos _)]
  split
  · rw [abs_neg, Nat.abs_cast]
  · rw [Nat.abs_cast]

theorem exists_value_eq {c : Binary} {e : Int} (h : e ≤ c.exponent) :
    ∃ k : Int, c.value = k * 2 ^ e ∧ (Even c.mantissa → Even k) := by
  refine ⟨signed c.negative c.mantissa * 2 ^ (c.exponent - e).toNat, ?_, fun heven => ?_⟩
  · have hpower : (2 : ℚ) ^ c.exponent = 2 ^ (c.exponent - e).toNat * 2 ^ e := by
      rw [← zpow_natCast, ← zpow_add₀ two_ne_zero]
      congr 1
      omega
    rw [value, hpower]
    push_cast
    ring
  · rw [← Int.natAbs_even, Int.natAbs_mul, natAbs_signed]
    exact heven.mul_right _

theorem IsDouble.value_lt {c : Binary} (hc : c.IsDouble) {e : Int} (h : c.exponent < e) :
    c.value < 2 ^ (mantissaBits - 1) * 2 ^ e := by
  have hmantissa : (c.mantissa : ℚ) < 2 ^ mantissaBits := by exact_mod_cast hc.mantissa_lt
  calc c.value ≤ |c.value| := le_abs_self _
    _ = c.mantissa * 2 ^ c.exponent := abs_value c
    _ < 2 ^ mantissaBits * 2 ^ c.exponent := mul_lt_mul_of_pos_right hmantissa (two_zpow_pos _)
    _ ≤ 2 ^ mantissaBits * 2 ^ (e - 1) := by
      gcongr
      · exact one_le_two
      · omega
    _ = 2 ^ (mantissaBits - 1) * 2 ^ e := by
      rw [zpow_sub_one₀ two_ne_zero, mantissaBits]
      ring

theorem IsDouble.value_le {c : Binary} (hc : c.IsDouble) :
    c.value ≤ (2 ^ mantissaBits - 1) * 2 ^ greatestExponent := by
  have hmantissa : (c.mantissa : ℚ) ≤ 2 ^ mantissaBits - 1 := by
    rw [le_sub_iff_add_le]
    exact_mod_cast hc.mantissa_lt
  calc c.value ≤ |c.value| := le_abs_self _
    _ = c.mantissa * 2 ^ c.exponent := abs_value c
    _ ≤ (2 ^ mantissaBits - 1) * 2 ^ c.exponent :=
      mul_le_mul_of_nonneg_right hmantissa (two_zpow_pos _).le
    _ ≤ (2 ^ mantissaBits - 1) * 2 ^ greatestExponent := by
      have hpos : (0 : ℚ) ≤ 2 ^ mantissaBits - 1 := by norm_num [mantissaBits]
      gcongr
      · exact one_le_two
      · exact hc.le_greatest

/-! The sign. -/

def negate (b : Binary) : Binary := { b with negative := !b.negative }

@[simp]
theorem value_negate (b : Binary) : b.negate.value = -b.value := by
  rw [value, value, negate, cast_signed, cast_signed]
  cases b.negative <;> simp

theorem IsDouble.negate {b : Binary} (h : b.IsDouble) : b.negate.IsDouble :=
  ⟨h.mantissa_lt, h.full, h.least_le, h.le_greatest⟩

/-! Numbers that 64 bits can hold. -/

theorem IsRepresentable.neg {x : ℚ} (h : IsRepresentable x) : IsRepresentable (-x) := by
  obtain ⟨c, hc, rfl⟩ := h
  exact ⟨c.negate, hc.negate, value_negate c⟩

theorem isRepresentable_of_lt {m : Nat} (hm : m < 2 ^ mantissaBits) {e : Int}
    (hleast : leastExponent ≤ e) (hgreatest : e ≤ greatestExponent) :
    IsRepresentable (m * 2 ^ e) := by
  by_cases hzero : m = 0
  · exact ⟨zero false, isDouble_zero false, by rw [value_zero, hzero, Nat.cast_zero, zero_mul]⟩
  have hbits : m.log2 < mantissaBits := (Nat.log2_lt hzero).mpr hm
  obtain ⟨k, hk, hplace⟩ : ∃ k : Nat, leastExponent ≤ e - k ∧ m.log2 + k < mantissaBits ∧
      (e - k = leastExponent ∨ m.log2 + k = mantissaBits - 1) := by
    refine ⟨min (e - leastExponent).toNat (mantissaBits - 1 - m.log2), ?_⟩
    omega
  refine ⟨⟨false, m * 2 ^ k, e - k⟩, ⟨?_, hplace.2.imp_right fun hfull => ?_, hk, ?_⟩, ?_⟩
  · calc m * 2 ^ k
      _ < 2 ^ (m.log2 + 1) * 2 ^ k :=
        Nat.mul_lt_mul_of_pos_right Nat.lt_log2_self (Nat.two_pow_pos k)
      _ ≤ 2 ^ mantissaBits := by
        rw [← pow_add, Nat.add_right_comm]
        exact Nat.pow_le_pow_right two_pos hplace.1
  · calc 2 ^ (mantissaBits - 1)
      _ = 2 ^ m.log2 * 2 ^ k := by rw [← pow_add, hfull]
      _ ≤ m * 2 ^ k := Nat.mul_le_mul_right _ (Nat.log2_self_le hzero)
  · dsimp only
    omega
  · rw [value, zpow_sub₀ two_ne_zero, zpow_natCast]
    simp only [signed, Bool.false_eq_true, if_false]
    push_cast
    field_simp

theorem isRepresentable_of_natAbs_lt {k : Int} (hk : k.natAbs < 2 ^ mantissaBits) {e : Int}
    (hleast : leastExponent ≤ e) (hgreatest : e ≤ greatestExponent) :
    IsRepresentable (k * 2 ^ e) := by
  have hrepresentable := isRepresentable_of_lt hk hleast hgreatest
  rcases Int.natAbs_eq k with h | h
  · rwa [h, Int.cast_natCast]
  · rw [h, Int.cast_neg, Int.cast_natCast, neg_mul]
    exact hrepresentable.neg

theorem isRepresentable_intCast {n : Int} (h : n.natAbs < 2 ^ mantissaBits) :
    IsRepresentable n := by
  simpa using isRepresentable_of_natAbs_lt h (by decide : leastExponent ≤ 0) (by decide)

/-! Between two numbers with even mantissas there is a third one. -/

theorem exists_between_of_exponent_le {b c : Binary} (hb : b.IsDouble) (hbeven : Even b.mantissa)
    (hceven : Even c.mantissa) (hexponent : b.exponent ≤ c.exponent) (hlt : b.value < c.value) :
    ∃ x, IsRepresentable x ∧ b.value < x ∧ x < c.value := by
  have hpos := two_zpow_pos b.exponent
  obtain ⟨k, hk, hkeven⟩ := exists_value_eq hexponent
  obtain ⟨j, hj⟩ : ∃ j : Int, signed b.negative b.mantissa = j := ⟨_, rfl⟩
  have hjeven : Even j := by
    rw [← hj, ← Int.natAbs_even, natAbs_signed]
    exact hbeven
  have hjlt : j.natAbs < 2 ^ mantissaBits := by
    rw [← hj, natAbs_signed]
    exact hb.mantissa_lt
  have hbj : b.value = j * 2 ^ b.exponent := by rw [value, hj]
  have hjk : j < k := by
    rw [hbj, hk, mul_lt_mul_iff_left₀ hpos] at hlt
    exact_mod_cast hlt
  have hstep : (j + 1).natAbs < 2 ^ mantissaBits ∧ j + 1 < k := by
    obtain ⟨i, rfl⟩ := hjeven
    obtain ⟨l, rfl⟩ := hkeven hceven
    rw [mantissaBits] at *
    omega
  refine ⟨(j + 1 : Int) * 2 ^ b.exponent,
    isRepresentable_of_natAbs_lt hstep.1 hb.least_le hb.le_greatest, ?_, ?_⟩
  · rw [hbj]
    exact mul_lt_mul_of_pos_right (by exact_mod_cast Int.lt_succ j) hpos
  · rw [hk]
    exact mul_lt_mul_of_pos_right (by exact_mod_cast hstep.2) hpos

theorem exists_between {b c : Binary} (hb : b.IsDouble) (hc : c.IsDouble)
    (hbeven : Even b.mantissa) (hceven : Even c.mantissa) (hlt : b.value < c.value) :
    ∃ x, IsRepresentable x ∧ b.value < x ∧ x < c.value := by
  rcases le_total b.exponent c.exponent with hexponent | hexponent
  · exact exists_between_of_exponent_le hb hbeven hceven hexponent hlt
  · obtain ⟨x, hx, hlower, hupper⟩ := exists_between_of_exponent_le hc.negate hceven hbeven
      (c := b.negate) hexponent (by simpa using hlt)
    rw [value_negate] at hlower hupper
    exact ⟨-x, hx.neg, lt_neg.mp hupper, neg_lt.mp hlower⟩

end SignalTree.Binary
