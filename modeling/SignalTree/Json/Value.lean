import SignalTree.Decimal.Binary

/-! JSON values. -/
namespace SignalTree

/-- Members of an object keep the order of their first occurrence. -/
inductive Json where
  | null
  | bool (value : Bool)
  | integer (value : Int)
  | float (value : Binary)
  | string (value : String)
  | array (items : List Json)
  | object (members : List (String × Json))

namespace Json

def insertMember (key : String) (value : Json) : List (String × Json) → List (String × Json)
  | [] => [(key, value)]
  | (k, v) :: rest =>
    if k = key then (k, value) :: rest else (k, v) :: insertMember key value rest

def members? : Json → Option (List (String × Json))
  | object members => some members
  | _ => none

def member? (key : String) (members : List (String × Json)) : Option Json :=
  members.lookup key

end Json

end SignalTree
