/-!
Sets of characters given by the code points at which membership changes.
-/
namespace SignalTree

/-- Ascending code points. A character belongs to the set when an odd number of
them lie at or below it. -/
structure Runs where
  flips : List Nat

namespace Runs

def inside : List Nat → Nat → Bool
  | [], _ => false
  | flip :: rest, n => if n < flip then false else !inside rest n

def contains (r : Runs) (c : Char) : Bool := inside r.flips c.toNat

end Runs

end SignalTree
