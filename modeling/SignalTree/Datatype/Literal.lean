import SignalTree.Datatype.Basic
import SignalTree.Decimal.Layout
import SignalTree.Text.Literal

/-!
How the generated Rust code spells a value type, its default and its bounds.
-/
namespace SignalTree

namespace Scalar

def rustType : Scalar → String
  | string => "String"
  | boolean => "bool"
  | integer true w => "i" ++ toString w.bits
  | integer false w => "u" ++ toString w.bits
  | float => "f32"
  | double => "f64"

def constantType : Scalar → String
  | string => "&'static str"
  | s => s.rustType

def defaultLiteral : Scalar → String
  | string => "String::new()"
  | boolean => "false"
  | integer _ _ => "0"
  | float | double => "0.0"

/-- Literals of floating point numbers: no exponent from 0.0001 up to, and not
including, ten to the sixteenth. -/
def floatFormat : NumberFormat where
  plainFrom := -4
  plainBelow := 16
  plusSign := []
  tie := .up

def greatestFloat : Nat := (Nat.pow 2 24 - 1) * Nat.pow 2 104

def readDigits? (raw : List Char) : Option Int :=
  (Numeral.readInteger? raw).filter fun n => -(Nat.pow 2 127 : Nat) ≤ n ∧ n < (Nat.pow 2 127 : Nat)

def wholeLimit : Nat := 5293955920339377 * Nat.pow 2 74

/-- The nearest 64-bit floating point number, if it is an integer and not too great. -/
def readWhole? (raw : List Char) : Option Int :=
  (((Numeral.read? raw).bind Binary.ofNumeral?).bind Binary.toInt?).filter (·.natAbs < wholeLimit)

/-- The integer that a bound states: digits are read as they stand, all other
notations, and digits that are too many, as floating point numbers. -/
def readInteger? (raw : List Char) : Option Int := readDigits? raw <|> readWhole? raw

def literal? (s : Scalar) (raw : String) : Option String :=
  let cs := Text.trim raw.toList
  match s with
  | string => some (String.ofList (Text.Literal.encode cs))
  | boolean =>
    if cs = "true".toList then some "true"
    else if cs = "false".toList then some "false"
    else none
  | integer signed w =>
    (readInteger? cs).bind fun n =>
      if least signed w ≤ n ∧ n ≤ greatest signed w then some (toString n) else none
  | float =>
    ((Numeral.read? cs).bind Binary.ofNumeral?).bind fun x =>
      if x.exceeds greatestFloat then none else some (floatFormat.render x)
  | double => ((Numeral.read? cs).bind Binary.ofNumeral?).map floatFormat.render

end Scalar

namespace ValueType

def rustType : ValueType → String
  | scalar s => s.rustType
  | array s => "Vec<" ++ s.rustType ++ ">"
  | untyped => "()"

def defaultLiteral : ValueType → String
  | scalar s => s.defaultLiteral
  | array _ => "Vec::new()"
  | untyped => "()"

def label : ValueType → String
  | untyped => "any"
  | t => t.rustType

def boundType? (t : ValueType) : Option String := t.bounded?.map Scalar.constantType

def boundLiteral? (t : ValueType) (raw : String) : Option String :=
  t.bounded?.bind (·.literal? raw)

end ValueType

end SignalTree
