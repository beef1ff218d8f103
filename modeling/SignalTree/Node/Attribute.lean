import SignalTree.Datatype.Basic

/-! The attributes of a node and their values. -/
namespace SignalTree

/-- Attributes are listed in this order wherever an order shows. -/
inductive Attribute where
  | uuid
  | type
  | description
  | comment
  | datatype
  | unit
  | min
  | max
deriving DecidableEq, Hashable

namespace Attribute

def all : List Attribute := [uuid, type, description, comment, datatype, unit, min, max]

def name : Attribute → String
  | uuid => "uuid"
  | type => "type"
  | description => "description"
  | comment => "comment"
  | datatype => "datatype"
  | unit => "unit"
  | min => "min"
  | max => "max"

def ofName? (name : String) : Option Attribute := all.find? (·.name == name)

theorem mem_all (a : Attribute) : a ∈ all := by cases a <;> simp [all]

end Attribute

/-- A value of an attribute and what it is a value of. -/
structure Property where
  key : Attribute
  value : String
  type : ValueType

/-- A node has one property of an attribute, so the attribute alone tells two
properties apart. -/
instance : BEq Property := ⟨fun p q => p.key == q.key⟩

instance : Hashable Property := ⟨fun p => hash p.key⟩

@[simp] theorem Property.beq_iff (p q : Property) :
    (p == q) = true ↔ p.key = q.key := by
  change (p.key == q.key) = true ↔ _
  simp

end SignalTree
