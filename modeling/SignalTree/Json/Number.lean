import SignalTree.Json.Value

/-!
The numbers of JSON texts. A whole number that fits 64 bits stays one. Any other
number becomes a float: as many of its digits as fit 64 bits are rounded to a
float, which is then scaled by powers of ten, so every step rounds and the result
may miss the nearest float by a little.
-/
namespace SignalTree.Json

def greatestWord : Nat := Nat.pow 2 64 - 1

/-- Appends digits to a number as long as it fits 64 bits, and gives the digits
left over. -/
def appendDigits (n : Nat) : List Char → Nat × List Char
  | [] => (n, [])
  | d :: rest =>
    let next := 10 * n + Numeral.digitValue d
    if next ≤ greatestWord then appendDigits next rest else (n, d :: rest)

/-- The leading digits of a number and the power of ten they count. Digits of the
whole part that do not fit still count as places, digits behind the point do not. -/
def significand (whole fraction : List Char) : Nat × Int :=
  let (n, left) := appendDigits 0 whole
  let (n, dropped) := appendDigits n fraction
  (n, (left.length : Int) - (fraction.length - dropped.length))

def greatestPower : Nat := 308

def powerOfTen (k : Nat) : Nat :=
  match Binary.ofFraction? false (Nat.pow 10 k) 1 with
  | some x => if 0 ≤ x.exponent then x.mantissa * Nat.pow 2 x.exponent.toNat else Nat.pow 10 k
  | none => Nat.pow 10 k

def scale? (x : Binary) (n d : Nat) : Option Binary :=
  if x.mantissa = 0 then some x
  else if 0 ≤ x.exponent then
    Binary.ofFraction? x.negative (x.mantissa * Nat.pow 2 x.exponent.toNat * n) d
  else Binary.ofFraction? x.negative (x.mantissa * n) (Nat.pow 2 (-x.exponent).toNat * d)

/-- Divides by `10 ^ k`, by the greatest power first. Nothing but zero is left
after three of those, so `steps` need not be more. -/
def scaleDown? (x : Binary) (k : Nat) : (steps : Nat) → Option Binary
  | 0 => some (.zero x.negative)
  | steps + 1 =>
    if k ≤ greatestPower then scale? x 1 (powerOfTen k)
    else do scaleDown? (← scale? x 1 (powerOfTen greatestPower)) (k - greatestPower) steps

def scaledFloat? (negative : Bool) (n : Nat) (k : Int) : Option Binary :=
  if n = 0 then some (.zero negative)
  else do
    let x ← Binary.ofFraction? negative n 1
    if k < 0 then scaleDown? x k.natAbs 4
    else if greatestPower < k then none
    else scale? x (powerOfTen k.toNat) 1

def splitDigits (cs : List Char) : List Char × List Char :=
  (cs.takeWhile Char.isDigit, cs.dropWhile Char.isDigit)

/-- The digits before the point: no zero in front of others. -/
def readWhole? (cs : List Char) : Option (List Char × List Char) :=
  let (ds, rest) := splitDigits cs
  match ds with
  | [] => none
  | '0' :: _ :: _ => none
  | _ => some (ds, rest)

def readFraction? : List Char → Option (List Char × List Char)
  | '.' :: cs =>
    let (ds, rest) := splitDigits cs
    if ds.isEmpty then none else some (ds, rest)
  | cs => some ([], cs)

def readExponent? : List Char → Option (Option Int × List Char)
  | c :: cs =>
    if c = 'e' ∨ c = 'E' then
      let (negative, body) := Numeral.splitSign cs
      let (ds, rest) := splitDigits body
      if ds.isEmpty then none else some (some (Numeral.signed negative (Numeral.ofDigits ds)), rest)
    else some (none, c :: cs)
  | [] => some (none, [])

/-- Minus zero is no whole number. -/
def wholeNumber? (negative : Bool) (n : Nat) : Option Int :=
  if negative then if 0 < n ∧ n ≤ Nat.pow 2 63 then some (-n) else none
  else if n ≤ greatestWord then some n else none

def readNumber? (cs : List Char) : Option (Json × List Char) := do
  let (negative, body) := match cs with
    | '-' :: body => (true, body)
    | body => (false, body)
  let (whole, rest) ← readWhole? body
  let (fraction, rest) ← readFraction? rest
  let (exponent, rest) ← readExponent? rest
  let exact := if fraction.isEmpty && exponent.isNone then
    wholeNumber? negative (Numeral.ofDigits whole) else none
  match exact with
  | some n => return (integer n, rest)
  | none =>
    let (n, k) := significand whole fraction
    return (float (← scaledFloat? negative n (k + exponent.getD 0)), rest)

end SignalTree.Json
