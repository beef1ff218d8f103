import SignalTree.Node.Basic

/-! Records: nodes as a definition file states them. -/
namespace SignalTree

/-- An entry of a definition file. Attributes that the entry leaves out are
empty. -/
structure Record where
  path : Path
  uuid : String
  kind : String
  description : String
  comment : String
  datatype : String
  unit : String
  min : String
  max : String
deriving DecidableEq

namespace Record

/-- The attributes of an entry, if it says what kind of node it is. -/
def ofAttributes? (path : Path) (lookup : Attribute → String) : Option Record :=
  if (lookup .type).isEmpty then none
  else some {
    path
    uuid := lookup .uuid
    kind := lookup .type
    description := lookup .description
    comment := lookup .comment
    datatype := lookup .datatype
    unit := lookup .unit
    min := lookup .min
    max := lookup .max }

def get (r : Record) : Attribute → String
  | .uuid => r.uuid
  | .type => r.kind
  | .description => r.description
  | .comment => r.comment
  | .datatype => r.datatype
  | .unit => r.unit
  | .min => r.min
  | .max => r.max

@[simp] theorem get_ofAttributes? {path : Path} {lookup : Attribute → String} {r : Record}
    (h : ofAttributes? path lookup = some r) : r.get = lookup := by
  simp only [ofAttributes?, Option.ite_none_left_eq_some, Option.some.injEq] at h
  obtain ⟨_, rfl⟩ := h
  funext a
  cases a <;> rfl

theorem exists_ofAttributes? (path : Path) {lookup : Attribute → String} (h : lookup .type ≠ "") :
    ∃ r, ofAttributes? path lookup = some r ∧ r.path = path ∧ ∀ a, r.get a = lookup a := by
  have htype : (lookup .type).isEmpty = false := by simpa using h
  refine ⟨_, by rw [ofAttributes?, htype]; rfl, rfl, fun a => ?_⟩
  cases a <;> rfl

theorem ofAttributes?_of_untyped (path : Path) {lookup : Attribute → String}
    (h : lookup .type = "") : ofAttributes? path lookup = none := by
  simp [ofAttributes?, h]

def resolve (r : Record) : Node where
  path := r.path
  properties :=
    Properties.new r.uuid r.kind
      |>.withDescription r.description
      |>.withComment r.comment
      |>.withDatatype r.datatype
      |>.withUnit r.unit
      |>.withMin r.min r.datatype
      |>.withMax r.max r.datatype

end Record

end SignalTree
