import SignalTree.Decimal.Binary

/-!
The fewest digits that read back. A decimal number reads back as `x` when it lies
in the interval of reals that round to `x`; the coarsest power of ten with a
multiple in that interval gives the fewest digits.
-/
namespace SignalTree.Binary

/-- Where a number lies exactly between two candidates. -/
inductive Tie where
  | toEven
  | up
deriving DecidableEq

/-- The ends of the rounding interval and the value itself, in quarters of the
last place. Below a power of two the next number is only half as far away. -/
structure Interval where
  low : Nat
  value : Nat
  high : Nat
  closed : Bool

def interval (x : Binary) : Interval where
  low :=
    if x.mantissa = Nat.pow 2 (mantissaBits - 1) ∧ leastExponent < x.exponent then
      4 * x.mantissa - 1
    else 4 * x.mantissa - 2
  value := 4 * x.mantissa
  high := 4 * x.mantissa + 2
  closed := x.mantissa % 2 = 0

/-- `10 ^ k` in quarters of the last place of a number with exponent `e`, as a
fraction of integers. -/
def gridStep (e k : Int) : Nat × Nat :=
  let quarter := e - 2
  (Nat.pow 10 k.toNat * Nat.pow 2 (-quarter).toNat,
    Nat.pow 10 (-k).toNat * Nat.pow 2 quarter.toNat)

/-- The multiple of `10 ^ k` nearest to the number, among those that read back. -/
def candidate? (tie : Tie) (x : Binary) (k : Int) : Option Nat :=
  let i := x.interval
  let (n, d) := gridStep x.exponent k
  let inside (c : Nat) : Bool :=
    if i.closed then i.low * d ≤ c * n && c * n ≤ i.high * d
    else i.low * d < c * n && c * n < i.high * d
  let below := i.value * d / n
  let beyond := i.value * d % n
  match inside below, inside (below + 1) with
  | true, false => some below
  | false, true => some (below + 1)
  | false, false => none
  | true, true =>
    if 2 * beyond < n then some below
    else if n < 2 * beyond then some (below + 1)
    else
      match tie with
      | .toEven => some (if below % 2 = 0 then below else below + 1)
      | .up => some (below + 1)

/-- Powers of ten from the greatest number's to beyond the least one's. -/
def gridExponents : List Int := (List.range 660).map fun (i : Nat) => 310 - (i : Int)

/-- The shortest decimal number `digits · 10 ^ k` that reads back as `x`. -/
def shortest (tie : Tie) (x : Binary) : Nat × Int :=
  (gridExponents.findSome? fun k => (candidate? tie x k).map (·, k)).getD (0, 0)

end SignalTree.Binary
