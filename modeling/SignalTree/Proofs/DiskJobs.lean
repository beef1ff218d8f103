import SignalTree.Proofs.DiskPlaces
import SignalTree.Workspace.Install

/-!
Runs of jobs on a disk, step by step.
-/
namespace SignalTree.Job

open Disk

variable {α β : Type} {d d' : Disk}

theorem bind_of_ok {x : Job Action α} {a : α} {log : List Event} (h : x d = (⟨log, .ok a⟩, d'))
    (f : α → Job Action β) :
    (x >>= f) d = (⟨log ++ (f a d').1.log, (f a d').1.result⟩, (f a d').2) := by
  change (Job.bind x f) d = _
  simp only [Job.bind, Job.run, bind, StateT.bind, h]
  rfl

theorem bind_of_silent {x : Job Action α} {a : α} (h : x d = (⟨[], .ok a⟩, d'))
    (f : α → Job Action β) : (x >>= f) d = f a d' :=
  bind_of_ok h f

theorem bind_of_error {x : Job Action α} {e : Fault} {log : List Event}
    (h : x d = (⟨log, .error e⟩, d')) (f : α → Job Action β) :
    (x >>= f) d = (⟨log, .error e⟩, d') := by
  change (Job.bind x f) d = _
  simp only [Job.bind, Job.run, bind, StateT.bind, h]
  rfl

theorem attempt_of_ok {p : FilePath} {x : Action (Except OsError α)} {a : α}
    (h : x d = (.ok a, d')) : Job.attempt p x d = (⟨[], .ok a⟩, d') := by
  simp only [Job.attempt, bind, StateT.bind, h]
  rfl

theorem attempt_of_error {p : FilePath} {x : Action (Except OsError α)} {e : OsError}
    (h : x d = (.error e, d')) : Job.attempt p x d = (⟨[], .error (.io p e)⟩, d') := by
  simp only [Job.attempt, bind, StateT.bind, h]
  rfl

theorem lift_eq {x : Action α} {a : α} (h : x d = (a, d')) :
    Job.lift x d = (⟨[], .ok a⟩, d') := by
  simp only [Job.lift, bind, StateT.bind, h]
  rfl

theorem onFault_of_ok {x : Job Action α} {cleanUp : Action PUnit} {a : α} {log : List Event}
    (h : x d = (⟨log, .ok a⟩, d')) : Job.onFault x cleanUp d = (⟨log, .ok a⟩, d') := by
  simp only [Job.onFault, Job.run, bind, StateT.bind, h]
  rfl

theorem onFault_of_error {x : Job Action α} {cleanUp : Action PUnit} {e : Fault}
    {log : List Event} (h : x d = (⟨log, .error e⟩, d')) :
    Job.onFault x cleanUp d = (⟨log, .error e⟩, (cleanUp d').2) := by
  simp only [Job.onFault, Job.run, bind, StateT.bind, h]
  rfl

end SignalTree.Job
