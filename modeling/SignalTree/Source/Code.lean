/-!
Source code as nested blocks, laid out as indented lines. Blocks that are open
are closed again by construction.
-/
namespace SignalTree.Source

inductive Line where
  | blank
  | text (indent : Nat) (text : String)
deriving DecidableEq

/-- A block is an opening line, a body one level deeper and a closing line. -/
inductive Code where
  | blank
  | line (text : String)
  | block (opening : String) (body : List Code) (closing : String)

namespace Code

mutual

def lines (indent : Nat) : Code → List Line
  | blank => [.blank]
  | line text => [.text indent text]
  | block opening body closing =>
    .text indent opening :: linesOf (indent + 1) body ++ [.text indent closing]

def linesOf (indent : Nat) : List Code → List Line
  | [] => []
  | code :: rest => code.lines indent ++ linesOf indent rest

end

@[simp] theorem linesOf_append (indent : Nat) (xs ys : List Code) :
    linesOf indent (xs ++ ys) = linesOf indent xs ++ linesOf indent ys := by
  induction xs with
  | nil => simp [linesOf]
  | cons x xs ih => simp [linesOf, ih]

def spaced : List (List Code) → List Code
  | [] => []
  | [part] => part
  | part :: rest => part ++ blank :: spaced rest

end Code

namespace Line

def shift (levels : Nat) : Line → Line
  | blank => blank
  | text indent t => text (indent + levels) t

/-- Four spaces a level, and none on a blank line. -/
def chars : Line → List Char
  | blank => ['\n']
  | text indent t => List.replicate (4 * indent) ' ' ++ t.toList ++ ['\n']

end Line

mutual

theorem Code.lines_add (indent levels : Nat) (code : Code) :
    code.lines (indent + levels) = (code.lines indent).map (Line.shift levels) := by
  cases code with
  | blank => simp [Code.lines, Line.shift]
  | line text => simp [Code.lines, Line.shift]
  | block opening body closing =>
    have := Code.linesOf_add (indent + 1) levels body
    simp only [Code.lines, List.map_cons, List.map_append, List.map_nil, Line.shift, ← this]
    rw [Nat.add_right_comm]

theorem Code.linesOf_add (indent levels : Nat) (code : List Code) :
    Code.linesOf (indent + levels) code = (Code.linesOf indent code).map (Line.shift levels) := by
  cases code with
  | nil => simp [Code.linesOf]
  | cons c rest =>
    simp [Code.linesOf, Code.lines_add indent levels c, Code.linesOf_add indent levels rest]

end

def render (code : List Code) : String :=
  String.ofList ((Code.linesOf 0 code).flatMap Line.chars)

theorem render_append (xs ys : List Code) : render (xs ++ ys) = render xs ++ render ys := by
  simp [render]

end SignalTree.Source
