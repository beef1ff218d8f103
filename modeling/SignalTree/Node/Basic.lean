import SignalTree.Node.Attribute
import SignalTree.Path

/-!
Nodes: a path and its properties. The identifier and the kind are always there,
the other attributes only with a value that is not empty.
-/
namespace SignalTree

/-- A bound has the type of the datatype it was given with. -/
structure Bound where
  value : String
  type : ValueType
deriving DecidableEq

structure Properties where
  uuid : String
  kind : String
  description : Option String
  comment : Option String
  datatype : Option String
  unit : Option String
  min : Option Bound
  max : Option Bound
deriving DecidableEq

namespace Properties

def new (uuid kind : String) : Properties :=
  { uuid, kind, description := none, comment := none, datatype := none, unit := none,
    min := none, max := none }

/-- A later value replaces an earlier one, an empty value replaces nothing. -/
def replace (old : Option α) (value : String) (new : α) : Option α :=
  if value.isEmpty then old else some new

def withDescription (p : Properties) (value : String) : Properties :=
  { p with description := replace p.description value value }

def withComment (p : Properties) (value : String) : Properties :=
  { p with comment := replace p.comment value value }

def withDatatype (p : Properties) (value : String) : Properties :=
  { p with datatype := replace p.datatype value value }

def withUnit (p : Properties) (value : String) : Properties :=
  { p with unit := replace p.unit value value }

/-- Without a datatype there is nothing to bound. -/
def replaceBound (old : Option Bound) (value datatype : String) : Option Bound :=
  if datatype.isEmpty then old else replace old value ⟨value, .ofDatatype datatype⟩

def withMin (p : Properties) (value datatype : String) : Properties :=
  { p with min := replaceBound p.min value datatype }

def withMax (p : Properties) (value datatype : String) : Properties :=
  { p with max := replaceBound p.max value datatype }

def get? (p : Properties) (a : Attribute) : Option Property :=
  let text (value : String) : Property := ⟨a, value, .scalar .string⟩
  let bound (b : Bound) : Property := ⟨a, b.value, b.type⟩
  match a with
  | .uuid => some (text p.uuid)
  | .type => some (text p.kind)
  | .description => p.description.map text
  | .comment => p.comment.map text
  | .datatype => p.datatype.map fun d => ⟨a, d, .ofDatatype d⟩
  | .unit => p.unit.map text
  | .min => p.min.map bound
  | .max => p.max.map bound

def value? (p : Properties) (a : Attribute) : Option String := (p.get? a).map Property.value

def toList (p : Properties) : List Property := Attribute.all.filterMap p.get?

def valueType (p : Properties) : ValueType := (p.datatype.map .ofDatatype).getD .untyped

theorem key_of_get? {p : Properties} {a : Attribute} {x : Property}
    (h : p.get? a = some x) : x.key = a := by
  cases a <;> simp [get?] at h <;> grind

@[simp] theorem mem_toList {p : Properties} {x : Property} :
    x ∈ p.toList ↔ p.get? x.key = some x := by
  simp only [toList, List.mem_filterMap]
  constructor
  · rintro ⟨a, _, h⟩
    rw [key_of_get? h, h]
  · intro h
    exact ⟨x.key, x.key.mem_all, h⟩

end Properties

structure Node where
  path : Path
  properties : Properties
deriving DecidableEq

namespace Node

def valueType (n : Node) : ValueType := n.properties.valueType

def plainBranch (path : Path) : Node := ⟨path, .new "" "branch"⟩

end Node

end SignalTree
