import SignalTree.Source.Code

/-!
Code written call by call. A writer keeps the text so far and its indentation; it is told to
write lines, and where blocks open and close. What it writes depends on where it starts only by
the indentation, and code as nested blocks tells it to close what is open and nothing else.
-/
namespace SignalTree.Source

inductive Call where
  | line (text : String)
  | blank
  | opening (text : String)
  | closing (text : String)

structure Writer where
  out : List Char
  indent : Nat

namespace Writer

def fresh : Writer := ⟨[], 0⟩

def write (w : Writer) (l : Line) : Writer := { w with out := w.out ++ l.chars }

/-- Closing at the left margin would go unnoticed. -/
def step (w : Writer) : Call → Writer
  | .line text => w.write (.text w.indent text)
  | .blank => w.write .blank
  | .opening text => { w.write (.text w.indent text) with indent := w.indent + 1 }
  | .closing text => { w with indent := w.indent - 1 }.write (.text (w.indent - 1) text)

def run (w : Writer) (calls : List Call) : Writer := calls.foldl step w

def written (indent : Nat) (calls : List Call) : List Char := (run ⟨[], indent⟩ calls).out

@[simp] theorem run_nil (w : Writer) : w.run [] = w := rfl

@[simp] theorem run_cons (w : Writer) (call : Call) (calls : List Call) :
    w.run (call :: calls) = (w.step call).run calls := rfl

@[simp] theorem run_append (w : Writer) (xs ys : List Call) :
    w.run (xs ++ ys) = (w.run xs).run ys := List.foldl_append

theorem run_mk (before out : List Char) (indent : Nat) (calls : List Call) :
    run ⟨before ++ out, indent⟩ calls =
      ⟨before ++ (run ⟨out, indent⟩ calls).out, (run ⟨out, indent⟩ calls).indent⟩ := by
  induction calls generalizing out indent with
  | nil => rfl
  | cons call calls ih =>
    cases call with
    | line text => simpa [step, write] using ih (out ++ (Line.text indent text).chars) indent
    | blank => simpa [step, write] using ih (out ++ Line.blank.chars) indent
    | opening text =>
      simpa [step, write] using ih (out ++ (Line.text indent text).chars) (indent + 1)
    | closing text =>
      simpa [step, write] using ih (out ++ (Line.text (indent - 1) text).chars) (indent - 1)

theorem out_run (w : Writer) (calls : List Call) :
    (w.run calls).out = w.out ++ written w.indent calls := by
  have h := run_mk w.out [] w.indent calls
  rw [List.append_nil] at h
  exact congrArg Writer.out h

theorem written_append (indent : Nat) (xs ys : List Call) :
    written indent (xs ++ ys) = written indent xs ++ written (run ⟨[], indent⟩ xs).indent ys := by
  rw [written, run_append, out_run]
  rfl

end Writer

/-- Calls that close what they have opened and nothing else. -/
structure Balanced (calls : List Call) : Prop where
  above : ∀ before text after, calls = before ++ .closing text :: after →
    ∀ w : Writer, w.indent < (w.run before).indent
  settled : ∀ w : Writer, (w.run calls).indent = w.indent

namespace Balanced

theorem nil : Balanced [] where
  above before text after h := by simp at h
  settled _ := rfl

theorem single {call : Call} (hclosing : ∀ text, call ≠ .closing text)
    (hindent : ∀ w : Writer, (w.step call).indent = w.indent) : Balanced [call] where
  above before text after h := by
    cases before with
    | nil => exact absurd (List.cons.inj h).1 (hclosing text)
    | cons c before => simp at h
  settled := hindent

theorem line (text : String) : Balanced [.line text] := single nofun fun _ => rfl

theorem blank : Balanced [.blank] := single nofun fun _ => rfl

theorem append_eq_append_cons {xs ys before after : List Call} {call : Call}
    (h : xs ++ ys = before ++ call :: after) :
    (∃ more, xs = before ++ call :: more) ∨
      ∃ more, before = xs ++ more ∧ ys = more ++ call :: after := by
  obtain ⟨more, hbefore, hmore⟩ | ⟨more, hxs, hmore⟩ := List.append_eq_append_iff.mp h
  · exact .inr ⟨more, hbefore, hmore⟩
  · cases more with
    | nil => exact .inr ⟨[], by simpa using hxs.symm, hmore.symm⟩
    | cons c more =>
      obtain ⟨rfl, -⟩ := List.cons.inj hmore
      exact .inl ⟨more, hxs⟩

theorem append {xs ys : List Call} (hx : Balanced xs) (hy : Balanced ys) : Balanced (xs ++ ys) where
  above before text after h w := by
    obtain ⟨more, hmore⟩ | ⟨more, rfl, hmore⟩ := append_eq_append_cons h
    · exact hx.above before text more hmore w
    · -- The second calls begin where the first ones began.
      have := hy.above more text after hmore (w.run xs)
      rwa [hx.settled, ← Writer.run_append] at this
  settled w := by rw [Writer.run_append, hy.settled, hx.settled]

theorem block {opening closing : String} {body : List Call} (h : Balanced body) :
    Balanced (.opening opening :: body ++ [.closing closing]) where
  above before text after heq w := by
    cases before with
    | nil => simp at heq
    | cons call before =>
      rw [List.cons_append, List.cons_append, List.cons.injEq] at heq
      obtain ⟨rfl, heq⟩ := heq
      rw [Writer.run_cons]
      have hindent : (w.step (.opening opening)).indent = w.indent + 1 := rfl
      obtain ⟨more, hmore⟩ | ⟨more, rfl, hmore⟩ := append_eq_append_cons heq
      · have := h.above before text more hmore (w.step (.opening opening))
        omega
      · have hlast : more = [] := by
          cases more with
          | nil => rfl
          | cons call more => simp at hmore
        rw [hlast, List.append_nil, h.settled, hindent]
        exact Nat.lt_succ_self _
  settled w := by
    rw [List.cons_append, Writer.run_cons, Writer.run_append]
    change ((w.step (.opening opening)).run body).indent - 1 = w.indent
    rw [h.settled]
    rfl

theorem written_append {xs : List Call} (h : Balanced xs) (indent : Nat) (ys : List Call) :
    Writer.written indent (xs ++ ys) = Writer.written indent xs ++ Writer.written indent ys := by
  rw [Writer.written_append, h.settled]

theorem written_flatMap {α : Type} {f : α → List Call} (h : ∀ x, Balanced (f x)) (indent : Nat)
    (xs : List α) :
    Writer.written indent (xs.flatMap f) = xs.flatMap fun x => Writer.written indent (f x) := by
  induction xs with
  | nil => rfl
  | cons x xs ih => rw [List.flatMap_cons, (h x).written_append, ih, List.flatMap_cons]

end Balanced

namespace Code

mutual

def calls : Code → List Call
  | blank => [.blank]
  | line text => [.line text]
  | block opening body closing => .opening opening :: callsOf body ++ [.closing closing]

def callsOf : List Code → List Call
  | [] => []
  | code :: rest => code.calls ++ callsOf rest

end

@[simp] theorem callsOf_nil : callsOf [] = [] := rfl

@[simp] theorem callsOf_append (xs ys : List Code) :
    callsOf (xs ++ ys) = callsOf xs ++ callsOf ys := by
  induction xs with
  | nil => rfl
  | cons x xs ih => rw [List.cons_append, callsOf, ih, callsOf, List.append_assoc]

@[simp] theorem callsOf_blank_cons (cs : List Code) :
    callsOf (.blank :: cs) = .blank :: callsOf cs := rfl

@[simp] theorem callsOf_line_cons (text : String) (cs : List Code) :
    callsOf (.line text :: cs) = .line text :: callsOf cs := rfl

@[simp] theorem callsOf_block_cons (opening closing : String) (body cs : List Code) :
    callsOf (.block opening body closing :: cs) =
      .opening opening :: callsOf body ++ .closing closing :: callsOf cs := by
  simp [callsOf, calls]

@[simp] theorem callsOf_map_line {α : Type} (f : α → String) (xs : List α) :
    callsOf (xs.map fun x => .line (f x)) = xs.map fun x => .line (f x) := by
  induction xs with
  | nil => rfl
  | cons x xs ih => rw [List.map_cons, callsOf_line_cons, ih, List.map_cons]

theorem callsOf_flatMap {α : Type} (f : α → List Code) (xs : List α) :
    callsOf (xs.flatMap f) = xs.flatMap fun x => callsOf (f x) := by
  induction xs with
  | nil => rfl
  | cons x xs ih => rw [List.flatMap_cons, callsOf_append, ih, List.flatMap_cons]

mutual

theorem balanced_calls (c : Code) : Balanced c.calls := by
  cases c with
  | blank => exact .blank
  | line text => exact .line text
  | block opening body closing => exact (balanced_callsOf body).block

theorem balanced_callsOf (cs : List Code) : Balanced (callsOf cs) := by
  cases cs with
  | nil => exact .nil
  | cons c cs => exact (balanced_calls c).append (balanced_callsOf cs)

end

mutual

theorem run_calls (w : Writer) (c : Code) :
    w.run c.calls = ⟨w.out ++ (c.lines w.indent).flatMap Line.chars, w.indent⟩ := by
  cases c with
  | blank => simp [calls, Writer.step, Writer.write, lines]
  | line text => simp [calls, Writer.step, Writer.write, lines]
  | block opening body closing =>
    have hbody := run_callsOf (w.step (.opening opening)) body
    rw [calls, List.cons_append, Writer.run_cons, Writer.run_append, hbody]
    simp [Writer.step, Writer.write, lines]

theorem run_callsOf (w : Writer) (cs : List Code) :
    w.run (callsOf cs) = ⟨w.out ++ (linesOf w.indent cs).flatMap Line.chars, w.indent⟩ := by
  cases cs with
  | nil => simp [linesOf]
  | cons c cs =>
    rw [callsOf, Writer.run_append, run_calls w c, run_callsOf _ cs]
    simp [linesOf]

end

theorem written_callsOf (indent : Nat) (cs : List Code) :
    Writer.written indent (callsOf cs) = (linesOf indent cs).flatMap Line.chars := by
  rw [Writer.written, run_callsOf]
  rfl

end Code

end SignalTree.Source
