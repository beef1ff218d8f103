import SignalTree.Decimal.Shortest

/-! How a floating point number is written: plainly, or with an exponent. -/
namespace SignalTree

/-- The choices of a number format. A number whose first digit stands for
`10 ^ x` is written plainly if `plainFrom ≤ x < plainBelow`. -/
structure NumberFormat where
  plainFrom : Int
  plainBelow : Int
  plusSign : List Char
  tie : Binary.Tie

namespace NumberFormat

def plain (ds : List Char) (whole : Int) : List Char :=
  if whole ≤ 0 then ['0', '.'] ++ List.replicate (-whole).toNat '0' ++ ds
  else
    let before := ds.take whole.toNat ++ List.replicate (whole.toNat - ds.length) '0'
    let after := ds.drop whole.toNat
    before ++ '.' :: (if after.isEmpty then ['0'] else after)

def scientific (f : NumberFormat) (ds : List Char) (x : Int) : List Char :=
  let fraction := if ds.length ≤ 1 then [] else '.' :: ds.drop 1
  let sign := if x < 0 then ['-'] else f.plusSign
  ds.take 1 ++ fraction ++ 'e' :: sign ++ Nat.toDigits 10 x.natAbs

def magnitude (f : NumberFormat) (x : Binary) : List Char :=
  if x.mantissa = 0 then ['0', '.', '0']
  else
    let (n, k) := x.shortest f.tie
    let ds := Nat.toDigits 10 n
    let whole := ds.length + k
    if f.plainFrom ≤ whole - 1 ∧ whole - 1 < f.plainBelow then plain ds whole
    else f.scientific ds (whole - 1)

/-- Zero keeps its sign. -/
def render (f : NumberFormat) (x : Binary) : String :=
  String.ofList ((if x.negative then ['-'] else []) ++ f.magnitude x)

end NumberFormat

end SignalTree
