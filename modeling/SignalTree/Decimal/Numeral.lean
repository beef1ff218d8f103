/-! Numbers in decimal notation, read exactly. -/
namespace SignalTree

/-- The number `± coefficient · 10 ^ exponent`, as it was written. -/
structure Numeral where
  negative : Bool
  coefficient : Nat
  exponent : Int
deriving DecidableEq

namespace Numeral

def digitValue (c : Char) : Nat := c.toNat - '0'.toNat

def ofDigits (ds : List Char) : Nat := ds.foldl (fun n d => 10 * n + digitValue d) 0

def splitSign : List Char → Bool × List Char
  | '-' :: rest => (true, rest)
  | '+' :: rest => (false, rest)
  | cs => (false, cs)

def signed (negative : Bool) (n : Nat) : Int := if negative then -n else n

def readInteger? (cs : List Char) : Option Int :=
  let (negative, ds) := splitSign cs
  if !ds.isEmpty && ds.all Char.isDigit then some (signed negative (ofDigits ds)) else none

def readExponent? : List Char → Option Int
  | [] => some 0
  | c :: rest => if c = 'e' ∨ c = 'E' then readInteger? rest else none

/-- A decimal number may leave out the digits on one side of its point, but not
on both. -/
def read? (cs : List Char) : Option Numeral :=
  let (negative, body) := splitSign cs
  let whole := body.takeWhile Char.isDigit
  let (fraction, rest) :=
    match body.dropWhile Char.isDigit with
    | '.' :: rest => (rest.takeWhile Char.isDigit, rest.dropWhile Char.isDigit)
    | rest => ([], rest)
  if whole.isEmpty && fraction.isEmpty then none
  else
    (readExponent? rest).map fun exponent =>
      ⟨negative, ofDigits (whole ++ fraction), exponent - fraction.length⟩

/-- A bound on the decimal places in front of the point: the magnitude lies
below ten to this power. -/
def order (x : Numeral) : Int := (Nat.toDigits 10 x.coefficient).length + x.exponent

end Numeral

end SignalTree
