import Mathlib.Data.List.Forall2
import SignalTree.Run.Outcome

/-!
Readers that read a list element by element. The list is read if all its elements are, and
the first one that is not decides the error.
-/
namespace SignalTree

/-- A result told by when there is one, what it is, and what the error is otherwise. -/
structure Meets (x : Except ε β) (Sound : Prop) (As : β → Prop) (Wrong : ε → Prop) : Prop where
  total : Sound ∨ ∃ e, Wrong e
  ok : Sound → ∃ y, x = .ok y ∧ As y
  error : ∀ {e}, Wrong e → x = .error e

/-- The first element of a list that does not hold up, and what is wrong with it. -/
def FirstWrong (Sound : α → Prop) (Wrong : α → ε → Prop) (xs : List α) (e : ε) : Prop :=
  ∃ before x after, xs = before ++ x :: after ∧ (∀ b ∈ before, Sound b) ∧ Wrong x e

namespace FirstWrong

variable {Sound : α → Prop} {Wrong : α → ε → Prop} {x : α} {e : ε}

theorem head (h : Wrong x e) (xs : List α) : FirstWrong Sound Wrong (x :: xs) e :=
  ⟨[], x, xs, rfl, by simp, h⟩

theorem tail {xs : List α} (hx : Sound x) :
    FirstWrong Sound Wrong xs e → FirstWrong Sound Wrong (x :: xs) e := by
  rintro ⟨before, y, after, rfl, hbefore, hwrong⟩
  exact ⟨x :: before, y, after, rfl, List.forall_mem_cons.mpr ⟨hx, hbefore⟩, hwrong⟩

end FirstWrong

namespace Meets

section

variable {x : Except ε β} {Sound : Prop} {As : β → Prop} {Wrong : ε → Prop}

theorem isOk_iff (h : Meets x Sound As Wrong) : (∃ y, x = .ok y) ↔ Sound := by
  refine ⟨?_, fun hsound => (h.ok hsound).imp fun _ => And.left⟩
  rintro ⟨y, hy⟩
  refine h.total.resolve_right ?_
  rintro ⟨e, hwrong⟩
  rw [h.error hwrong] at hy
  cases hy

theorem as (h : Meets x Sound As Wrong) {y : β} (hy : x = .ok y) : As y := by
  obtain ⟨y', hy', has⟩ := h.ok (h.isOk_iff.mp ⟨y, hy⟩)
  rw [hy] at hy'
  cases hy'
  exact has

theorem error_iff (h : Meets x Sound As Wrong) {e : ε} : x = .error e ↔ Wrong e := by
  refine ⟨fun he => ?_, h.error⟩
  rcases h.total with hsound | ⟨e', hwrong⟩
  · obtain ⟨y, hy, -⟩ := h.ok hsound
    rw [hy] at he
    cases he
  · rw [h.error hwrong] at he
    cases he
    exact hwrong

end

theorem mapM {read : α → Except ε β} {Sound : α → Prop} {As : α → β → Prop}
    {Wrong : α → ε → Prop} {xs : List α}
    (h : ∀ x ∈ xs, Meets (read x) (Sound x) (As x) (Wrong x)) :
    Meets (xs.mapM read) (∀ x ∈ xs, Sound x) (List.Forall₂ As xs)
      (FirstWrong Sound Wrong xs) := by
  induction xs with
  | nil =>
    refine ⟨.inl (by simp), fun _ => ⟨[], rfl, .nil⟩, ?_⟩
    rintro e ⟨before, x, after, hsplit, -⟩
    simp at hsplit
  | cons x xs ih =>
    obtain ⟨hx, hxs⟩ := List.forall_mem_cons.mp h
    have ih := ih hxs
    rw [List.mapM_cons]
    constructor
    · rcases hx.total with hsound | ⟨e, hwrong⟩
      · exact ih.total.imp (fun hall => List.forall_mem_cons.mpr ⟨hsound, hall⟩)
          fun ⟨e, hwrong⟩ => ⟨e, hwrong.tail hsound⟩
      · exact .inr ⟨e, .head hwrong xs⟩
    · intro hsound
      obtain ⟨hsound, hall⟩ := List.forall_mem_cons.mp hsound
      obtain ⟨y, hy, has⟩ := hx.ok hsound
      obtain ⟨ys, hys, hass⟩ := ih.ok hall
      exact ⟨y :: ys, by rw [hy, hys]; rfl, .cons has hass⟩
    · rintro e ⟨before, w, after, hsplit, hbefore, hwrong⟩
      cases before with
      | nil =>
        obtain ⟨rfl, -⟩ := List.cons.inj hsplit
        rw [hx.error hwrong]
        rfl
      | cons b before =>
        obtain ⟨rfl, rfl⟩ := List.cons.inj hsplit
        obtain ⟨hsound, hbefore⟩ := List.forall_mem_cons.mp hbefore
        obtain ⟨y, hy, -⟩ := hx.ok hsound
        rw [hy, ih.error ⟨before, w, after, rfl, hbefore, hwrong⟩]
        rfl

end Meets

end SignalTree
