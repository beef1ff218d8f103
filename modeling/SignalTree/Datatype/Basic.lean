import SignalTree.Text.Basic

/-! The datatypes of the signal specification. -/
namespace SignalTree

inductive Width where
  | bits8
  | bits16
  | bits32
  | bits64
deriving DecidableEq

def Width.bits : Width → Nat
  | bits8 => 8
  | bits16 => 16
  | bits32 => 32
  | bits64 => 64

inductive Scalar where
  | string
  | boolean
  | integer (signed : Bool) (width : Width)
  | float
  | double
deriving DecidableEq

namespace Scalar

def name : Scalar → String
  | string => "string"
  | boolean => "boolean"
  | integer true w => "int" ++ toString w.bits
  | integer false w => "uint" ++ toString w.bits
  | float => "float"
  | double => "double"

def all : List Scalar :=
  [string, boolean] ++
    [Width.bits8, .bits16, .bits32, .bits64].flatMap
      (fun w => [integer true w, integer false w]) ++
    [float, double]

def ofName? (name : String) : Option Scalar := all.find? (·.name == name)

theorem mem_all (s : Scalar) : s ∈ all := by
  rcases s with _ | _ | ⟨s, w⟩ | _ | _ <;> try cases s <;> cases w
  all_goals simp [all]

def least : Bool → Width → Int
  | true, w => -(Nat.pow 2 (w.bits - 1) : Nat)
  | false, _ => 0

def greatest : Bool → Width → Int
  | true, w => (Nat.pow 2 (w.bits - 1) : Nat) - 1
  | false, w => (Nat.pow 2 w.bits : Nat) - 1

end Scalar

/-- What the value of a node is. Branches, and datatypes that the specification
may add one day, have no type. -/
inductive ValueType where
  | scalar (of : Scalar)
  | array (of : Scalar)
  | untyped
deriving DecidableEq

namespace ValueType

/-- An array is spelled as its element with a pair of brackets. -/
def ofDatatype (datatype : String) : ValueType :=
  let cs := Text.trim datatype.toList
  match Text.stripSuffix? ['[', ']'] cs with
  | some element => ((Scalar.ofName? (String.ofList element)).map array).getD untyped
  | none => ((Scalar.ofName? (String.ofList cs)).map scalar).getD untyped

/-- What the bounds of a value limit: the value, or each element of an array. -/
def bounded? : ValueType → Option Scalar
  | scalar s | array s => some s
  | untyped => none

end ValueType

end SignalTree
