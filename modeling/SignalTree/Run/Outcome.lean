import SignalTree.Run.Event
import SignalTree.Run.Fault

/-!
Results with the events reported on the way. A fault ends a run but keeps the
events before it.
-/
namespace SignalTree

theorem Except.bind_eq_ok {x : Except ε α} {f : α → Except ε β} {b : β} :
    (x >>= f) = .ok b ↔ ∃ a, x = .ok a ∧ f a = .ok b := by
  cases x with
  | error e => simp [bind, Except.bind]
  | ok a => simp [bind, Except.bind]

structure Outcome (α : Type) where
  log : List Event
  result : Except Fault α

namespace Outcome

protected def bind (x : Outcome α) (f : α → Outcome β) : Outcome β :=
  match x.result with
  | .ok a => ⟨x.log ++ (f a).log, (f a).result⟩
  | .error e => ⟨x.log, .error e⟩

instance : Monad Outcome where
  pure a := ⟨[], .ok a⟩
  bind := Outcome.bind

instance : MonadExcept Fault Outcome where
  throw e := ⟨[], .error e⟩
  tryCatch x handle :=
    match x.result with
    | .ok _ => x
    | .error e => ⟨x.log ++ (handle e).log, (handle e).result⟩

def report (events : List Event) : Outcome PUnit := ⟨events, .ok ⟨⟩⟩

def ofExcept (x : Except Fault α) : Outcome α := ⟨[], x⟩

instance : MonadLift (Except Fault) Outcome := ⟨ofExcept⟩

@[simp] theorem log_pure (a : α) : (pure a : Outcome α).log = [] := rfl

@[simp] theorem result_pure (a : α) : (pure a : Outcome α).result = .ok a := rfl

@[simp] theorem result_bind (x : Outcome α) (f : α → Outcome β) :
    (x >>= f).result = x.result >>= fun a => (f a).result := by
  change (Outcome.bind x f).result = _
  rcases x with ⟨log, _ | a⟩ <;> rfl

theorem log_bind (x : Outcome α) (f : α → Outcome β) :
    (x >>= f).log = x.log ++ match x.result with
      | .ok a => (f a).log
      | .error _ => [] := by
  change (Outcome.bind x f).log = _
  rcases x with ⟨log, _ | a⟩ <;> simp [Outcome.bind]

@[simp] theorem log_report (events : List Event) : (report events).log = events := rfl

@[simp] theorem result_report (events : List Event) : (report events).result = .ok ⟨⟩ := rfl

@[simp] theorem log_ofExcept (x : Except Fault α) : (ofExcept x).log = [] := rfl

@[simp] theorem result_ofExcept (x : Except Fault α) : (ofExcept x).result = x := rfl

@[ext] theorem ext {x y : Outcome α} (log : x.log = y.log) (result : x.result = y.result) :
    x = y := by
  cases x; cases y; cases log; cases result; rfl

theorem map_id' (x : Outcome α) : id <$> x = x := by
  apply ext <;> rcases x with ⟨log, _ | a⟩ <;> simp [Functor.map, Outcome.bind]

theorem pure_bind' (a : α) (f : α → Outcome β) : pure a >>= f = f a := by
  apply ext
  · simp [log_bind]
  · simp only [result_bind, result_pure]
    rfl

theorem bind_assoc' (x : Outcome α) (f : α → Outcome β) (g : β → Outcome γ) :
    x >>= f >>= g = x >>= fun a => f a >>= g := by
  rcases x with ⟨log, e | a⟩
  · rfl
  · change Outcome.bind (Outcome.bind ⟨log, .ok a⟩ f) g =
      Outcome.bind ⟨log, .ok a⟩ fun a => Outcome.bind (f a) g
    simp only [Outcome.bind]
    rcases f a with ⟨_, _ | b⟩ <;> simp

instance : LawfulMonad Outcome := LawfulMonad.mk' Outcome map_id' pure_bind' bind_assoc'

end Outcome

end SignalTree
