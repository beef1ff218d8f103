import Mathlib.Tactic.FieldSimp
import SignalTree.Proofs.Doubles

/-!
Decimal numbers are rounded to the nearest 64-bit floating point number, and between two of
them to the one with an even mantissa.
-/
namespace SignalTree.Binary

/-- No number of 64 bits is nearer, and if another one is as near, the mantissa is even. -/
structure IsNearest (b : Binary) (x : ℚ) : Prop where
  isDouble : b.IsDouble
  le : ∀ c : Binary, c.IsDouble → |x - b.value| ≤ |x - c.value|
  even : ∀ c : Binary, c.IsDouble → |x - c.value| = |x - b.value| → c.value ≠ b.value →
    Even b.mantissa

/-! The nearest integer. -/

theorem exists_div_eq_add {n d : Nat} (hd : 0 < d) :
    ∃ t : ℚ, (n : ℚ) / d = (n / d : Nat) + t ∧ 0 ≤ t ∧ t < 1 ∧ t = (n % d : Nat) / d := by
  have hdq : (0 : ℚ) < d := by exact_mod_cast hd
  refine ⟨(n % d : Nat) / d, ?_, by positivity, ?_, rfl⟩
  · have hn : (n : ℚ) = d * (n / d : Nat) + (n % d : Nat) := by
      exact_mod_cast (Nat.div_add_mod n d).symm
    field_simp
    linarith
  · rw [div_lt_one hdq]
    exact_mod_cast Nat.mod_lt n hd

theorem abs_sub_divNearest_le {n d : Nat} (hd : 0 < d) :
    |(n : ℚ) / d - divNearest n d| ≤ 1 / 2 ∧
      (|(n : ℚ) / d - divNearest n d| = 1 / 2 → Even (divNearest n d)) := by
  have hdq : (0 : ℚ) < d := by exact_mod_cast hd
  obtain ⟨t, hsplit, ht0, ht1, ht⟩ := exists_div_eq_add (n := n) hd
  have hlt : d < 2 * (n % d) ↔ 1 / 2 < t := by
    rw [ht, lt_div_iff₀ hdq, ← Nat.cast_lt (α := ℚ)]
    push_cast
    constructor <;> intro h <;> linarith
  have heq : d = 2 * (n % d) ↔ t = 1 / 2 := by
    rw [ht, div_eq_iff hdq.ne', ← Nat.cast_inj (R := ℚ)]
    push_cast
    constructor <;> intro h <;> linarith
  unfold divNearest
  dsimp only
  rw [hsplit]
  split
  · next hup =>
    rw [hlt, heq] at hup
    have hhalf : 1 / 2 ≤ t := by
      rcases hup with h | ⟨h, -⟩
      · exact h.le
      · exact h.ge
    have habs : |((n / d : Nat) : ℚ) + t - (n / d + 1 : Nat)| = 1 - t := by
      rw [abs_sub_comm, abs_of_nonneg] <;> push_cast <;> linarith
    rw [habs]
    refine ⟨by linarith, fun h => ?_⟩
    have hodd := (hup.resolve_left fun hlt => by linarith).2
    rw [Nat.even_add_one, Nat.not_even_iff]
    exact hodd
  · next hdown =>
    rw [hlt, heq] at hdown
    obtain ⟨hle, hodd⟩ := not_or.mp hdown
    have habs : |((n / d : Nat) : ℚ) + t - (n / d : Nat)| = t := by
      rw [add_sub_cancel_left, abs_of_nonneg ht0]
    rw [habs]
    refine ⟨not_lt.mp hle, fun h => ?_⟩
    rw [Nat.even_iff]
    exact Nat.mod_two_ne_one.mp fun h1 => hodd ⟨h, h1⟩

theorem half_le_abs_sub {y : ℚ} {m k : Int} (h : |y - m| ≤ 1 / 2) (hk : k ≠ m) :
    1 / 2 ≤ |y - k| := by
  have hstep : (1 : ℚ) ≤ |(k : ℚ) - m| := by
    exact_mod_cast Int.one_le_abs (sub_ne_zero.mpr hk)
  have htriangle : |(k : ℚ) - m| ≤ |y - m| + |y - k| := by
    have habs := abs_sub_le (k : ℚ) y m
    rw [abs_sub_comm (k : ℚ) y] at habs
    linarith
  linarith

/-! The numbers near one that is rounded: multiples of one power of two, and smaller ones. -/

/-- On the grid of multiples of a power of two there is one as near as any number of 64 bits,
if what is rounded has all bits of a mantissa on that grid. -/
theorem exists_multiple {c : Binary} (hc : c.IsDouble) {y : ℚ} {e : Int}
    (h : e = leastExponent ∨ 2 ^ (mantissaBits - 1) ≤ y) :
    ∃ k : Int, |y - k| ≤ |y - c.value / 2 ^ e| ∧
      (|y - c.value / 2 ^ e| = |y - k| → c.value = k * 2 ^ e) := by
  by_cases he : e ≤ c.exponent
  · obtain ⟨k, hk, -⟩ := exists_value_eq he
    refine ⟨k, ?_, fun _ => hk⟩
    rw [hk, mul_div_cancel_right₀ _ (two_zpow_pos e).ne']
  · have hy := h.resolve_left fun hleast => he (hleast ▸ hc.least_le)
    have hsmall : c.value / 2 ^ e < 2 ^ (mantissaBits - 1) :=
      (div_lt_iff₀ (two_zpow_pos e)).mpr (hc.value_lt (not_le.mp he))
    refine ⟨2 ^ (mantissaBits - 1), ?_, fun heq => ?_⟩
    · push_cast
      rw [abs_of_nonneg (by linarith), abs_of_nonneg (by linarith)]
      linarith
    · push_cast at heq
      rw [abs_of_nonneg (by linarith), abs_of_nonneg (by linarith)] at heq
      linarith

theorem isNearest_of_multiple {b : Binary} (hb : b.IsDouble) {x : ℚ} {e : Int} {m : Nat}
    (hvalue : b.value = m * 2 ^ e) (heven : Even m → Even b.mantissa)
    (hnear : |x / 2 ^ e - m| ≤ 1 / 2) (htie : |x / 2 ^ e - m| = 1 / 2 → Even m)
    (hfull : e = leastExponent ∨ 2 ^ (mantissaBits - 1) ≤ x / 2 ^ e) : b.IsNearest x := by
  have hpos := two_zpow_pos e
  have hscale (z : ℚ) : |x - z| = |x / 2 ^ e - z / 2 ^ e| * 2 ^ e := by
    rw [← sub_div, abs_div, abs_of_pos hpos, div_mul_cancel₀ _ hpos.ne']
  have hb' : b.value / 2 ^ e = m := by rw [hvalue, mul_div_cancel_right₀ _ hpos.ne']
  have hnear' : |x / 2 ^ e - (m : Int)| ≤ 1 / 2 := by exact_mod_cast hnear
  have hle (k : Int) : |x / 2 ^ e - m| ≤ |x / 2 ^ e - k| := by
    by_cases hk : k = m
    · rw [hk, Int.cast_natCast]
    · exact hnear.trans (half_le_abs_sub hnear' hk)
  refine ⟨hb, fun c hc => ?_, fun c hc heq hne => heven (htie ?_)⟩
  · obtain ⟨k, hk, -⟩ := exists_multiple hc hfull
    rw [hscale, hscale, hb']
    exact mul_le_mul_of_nonneg_right ((hle k).trans hk) hpos.le
  · obtain ⟨k, hk, hgrid⟩ := exists_multiple hc hfull
    rw [hscale, hscale, hb', mul_left_inj' hpos.ne'] at heq
    have hsame : |x / 2 ^ e - k| = |x / 2 ^ e - m| :=
      le_antisymm (hk.trans heq.le) (hle k)
    have hkm : k ≠ m := by
      rintro rfl
      refine hne ?_
      rw [hgrid (heq.trans hsame.symm), hvalue, Int.cast_natCast]
    exact le_antisymm hnear (hsame ▸ half_le_abs_sub hnear' hkm)

/-! What rounding keeps. -/

theorem IsNearest.negate {b : Binary} {x : ℚ} (h : b.IsNearest x) : b.negate.IsNearest (-x) := by
  have hflip (c : Binary) : |-x - c.value| = |x - c.negate.value| := by
    rw [value_negate, ← abs_neg]
    congr 1
    ring
  have hself : |-x - b.negate.value| = |x - b.value| := by
    rw [hflip, value_negate, value_negate, neg_neg]
  refine ⟨h.isDouble.negate, fun c hc => ?_, fun c hc heq hne => ?_⟩
  · rw [hself, hflip]
    exact h.le c.negate hc.negate
  · rw [hself, hflip] at heq
    refine h.even c.negate hc.negate heq fun hvalue => hne ?_
    rw [value_negate, ← hvalue, value_negate, neg_neg]

theorem IsNearest.not_value_lt {b c : Binary} {x : ℚ} (hb : b.IsNearest x) (hc : c.IsNearest x) :
    ¬ b.value < c.value := by
  intro hlt
  have hsame : |x - b.value| = |x - c.value| :=
    le_antisymm (hb.le c hc.isDouble) (hc.le b hb.isDouble)
  obtain ⟨_, ⟨y, hy, rfl⟩, hlower, hupper⟩ := exists_between hb.isDouble hc.isDouble
    (hb.even c hc.isDouble hsame.symm hlt.ne') (hc.even b hb.isDouble hsame hlt.ne) hlt
  -- A number in the middle of the two is nearer to the third.
  have hmiddle : x - b.value = c.value - x := by
    rcases abs_eq_abs.mp hsame with h | h <;> linarith
  have hle := hb.le y hy
  rw [abs_of_pos (by linarith)] at hle
  have hnearer : |x - y.value| < x - b.value := abs_lt.mpr ⟨by linarith, by linarith⟩
  exact absurd hle (not_le.mpr hnearer)

theorem IsNearest.unique {b c : Binary} {x : ℚ} (hb : b.IsNearest x) (hc : c.IsNearest x) :
    b.value = c.value :=
  le_antisymm (not_lt.mp (hc.not_value_lt hb)) (not_lt.mp (hb.not_value_lt hc))

theorem IsRepresentable.exists_isNearest {x : ℚ} (hx : IsRepresentable x) :
    ∃ b : Binary, b.IsNearest x ∧ b.value = x := by
  obtain ⟨b, hb, rfl⟩ := hx
  refine ⟨b, ⟨hb, fun c _ => ?_, fun c _ heq hne => ?_⟩, rfl⟩
  · rw [sub_self, abs_zero]
    exact abs_nonneg _
  · rw [sub_self, abs_zero, abs_eq_zero, sub_eq_zero] at heq
    exact absurd heq.symm hne

theorem IsNearest.value_eq {b : Binary} {x : ℚ} (h : b.IsNearest x) (hx : IsRepresentable x) :
    b.value = x := by
  obtain ⟨c, hc, hvalue⟩ := hx.exists_isNearest
  exact (h.unique hc).trans hvalue

theorem IsNearest.le_value {b c : Binary} {x : ℚ} (h : b.IsNearest x) (hc : c.IsDouble)
    (hx : c.value ≤ x) : c.value ≤ b.value := by
  have hle := h.le c hc
  rw [abs_of_nonneg (sub_nonneg.mpr hx)] at hle
  linarith [le_abs_self (x - b.value)]

theorem IsNearest.le_abs_value {b c : Binary} {x : ℚ} (h : b.IsNearest x) (hc : c.IsDouble)
    (hx : c.value ≤ |x|) : c.value ≤ |b.value| := by
  rcases le_total 0 x with h0 | h0
  · rw [abs_of_nonneg h0] at hx
    exact (h.le_value hc hx).trans (le_abs_self _)
  · rw [abs_of_nonpos h0] at hx
    have hnegate := h.negate.le_value hc hx
    rw [value_negate] at hnegate
    exact hnegate.trans (neg_le_abs _)

/-- Rounding gives a nearest number, or nothing if all numbers are smaller. -/
def RoundsTo (x : ℚ) : Option Binary → Prop
  | some b => b.IsNearest x
  | none => ∀ c : Binary, c.IsDouble → c.value < |x|

theorem RoundsTo.negate {x : ℚ} {answer : Option Binary} (h : RoundsTo x answer) :
    RoundsTo (-x) (answer.map Binary.negate) := by
  cases answer with
  | some b => exact IsNearest.negate h
  | none =>
    intro c hc
    rw [abs_neg]
    exact h c hc

end SignalTree.Binary
