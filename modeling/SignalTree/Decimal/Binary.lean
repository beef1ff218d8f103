import SignalTree.Decimal.Numeral

/-!
Finite 64-bit floating point numbers and the rounding of decimal numbers to
them, in exact integer arithmetic.
-/
namespace SignalTree

/-- The number `± mantissa · 2 ^ exponent`. The mantissa has at most 53 bits, and
fewer only at the least exponent. -/
structure Binary where
  negative : Bool
  mantissa : Nat
  exponent : Int
deriving DecidableEq

namespace Binary

def mantissaBits : Nat := 53
def leastExponent : Int := -1074
def greatestExponent : Int := 971

def zero (negative : Bool) : Binary := ⟨negative, 0, leastExponent⟩

/-- The quotient, rounded to the nearest integer. A half goes to the even one. -/
def divNearest (n d : Nat) : Nat :=
  let q := n / d
  let r := n % d
  if d < 2 * r ∨ (d = 2 * r ∧ q % 2 = 1) then q + 1 else q

def scaleDown (n d : Nat) (e : Int) : Nat × Nat :=
  if e < 0 then (n * Nat.pow 2 (-e).toNat, d) else (n, d * Nat.pow 2 e.toNat)

/-- The exponent at which the quotient has all bits of a mantissa in front of
the point, or the least one where it has fewer. -/
def exponentFor (n d : Nat) : Int :=
  let guess : Int := (n.log2 : Int) - d.log2 - mantissaBits
  let (n', d') := scaleDown n d guess
  let exact := if d' * Nat.pow 2 mantissaBits ≤ n' then guess + 1 else guess
  max exact leastExponent

def mantissaAt (n d : Nat) (e : Int) : Nat :=
  divNearest (scaleDown n d e).1 (scaleDown n d e).2

/-- The number `± m · 2 ^ e`. Rounding may have left `m` with one bit too many. -/
def carried (negative : Bool) (m : Nat) (e : Int) : Binary :=
  if m = Nat.pow 2 mantissaBits then ⟨negative, m / 2, e + 1⟩ else ⟨negative, m, e⟩

def ofFraction? (negative : Bool) (n d : Nat) : Option Binary :=
  let e := exponentFor n d
  let x := carried negative (mantissaAt n d e) e
  if x.exponent ≤ greatestExponent then some x else none

/-- The number nearest to a decimal one. Powers of ten far outside of the range
are settled by the order of the numeral alone. -/
def ofNumeral? (x : Numeral) : Option Binary :=
  if x.coefficient = 0 ∨ x.order < -400 then some (zero x.negative)
  else if 400 < x.order then none
  else if 0 ≤ x.exponent then
    ofFraction? x.negative (x.coefficient * Nat.pow 10 x.exponent.toNat) 1
  else ofFraction? x.negative x.coefficient (Nat.pow 10 (-x.exponent).toNat)

def toInt? (x : Binary) : Option Int :=
  if 0 ≤ x.exponent then
    some (Numeral.signed x.negative (x.mantissa * Nat.pow 2 x.exponent.toNat))
  else
    let unit := Nat.pow 2 (-x.exponent).toNat
    if x.mantissa % unit = 0 then some (Numeral.signed x.negative (x.mantissa / unit)) else none

def exceeds (x : Binary) (limit : Nat) : Bool :=
  if 0 ≤ x.exponent then limit < x.mantissa * Nat.pow 2 x.exponent.toNat
  else limit * Nat.pow 2 (-x.exponent).toNat < x.mantissa

end Binary

end SignalTree
