import Netmux.EventLoop

/-!
# The history of the functor queue

At every point of every interleaving, the functors executed so far, then the
rest of the current batch, then the pending ones are the functors queued, in
the order of their pushes. None is lost, executed twice or overtaken.
-/
namespace Netmux.FunctorHistory
open ActionRuns EventLoop

variable {F T : Type}

/-- Executed, swapped out and pending functors, in this order, are all queued. -/
def InOrder (s : State F T) : Prop :=
  s.executed ++ s.pc.unexecuted ++ s.pendingFunctors = s.queued

theorem inOrder_create (shared : Bool) : InOrder (State.create shared : State F T) := rfl

/-- Functors enter the history and the pending list together. -/
theorem InOrder.emplaceBack {s : State F T} (h : InOrder s) (functor : F) :
    InOrder (s.emplaceBack functor) := by
  unfold InOrder at h ⊢
  calc s.executed ++ s.pc.unexecuted ++ (s.pendingFunctors ++ [functor])
      = s.executed ++ s.pc.unexecuted ++ s.pendingFunctors ++ [functor] :=
        (List.append_assoc _ _ _).symm
    _ = s.queued ++ [functor] := by rw [h]

/-- The loop's thread moves functors from one part to the next. -/
theorem InOrder.advance {s : State F T} (h : InOrder s) (ready : Bool) :
    InOrder (s.advance ready) := by
  unfold InOrder at h
  unfold State.advance
  cases hpc : s.pc with
  | testQuit =>
      rw [hpc] at h
      cases hq : s.quit <;> simpa [InOrder, Pc.unexecuted] using h
  | dispatch wakeup =>
      rw [hpc] at h
      cases wakeup <;> simpa [InOrder, Pc.unexecuted, State.handleRead] using h
  | batch functors =>
      rw [hpc] at h
      cases functors <;> simpa [InOrder, Pc.unexecuted] using h
  | initCallback | publish | setLooping | resetQuit | poll | setCalling | swap
  | running functor functors | clearLooping | returned | finished =>
      rw [hpc] at h
      simpa [InOrder, Pc.unexecuted] using h

theorem InOrder.finishOwn {s : State F T} (h : InOrder s) : InOrder s.finishOwn := by
  unfold State.finishOwn
  cases s.own with
  | none => exact h
  | some index =>
      dsimp only
      split_ifs
      · exact h
      · exact h

section Threads
variable [DecidableEq T]

theorem InOrder.finishPush {s : State F T} (h : InOrder s) (t : T) : InOrder (s.finishPush t) := by
  unfold State.finishPush
  cases s.threads t <;> exact h

theorem inOrder_step (s : State F T) (a : LoopAction F T) (t : State F T) (h : InOrder s)
    (ht : step s a = some t) : InOrder t := by
  obtain ⟨-, rfl⟩ := step_eq_some.mp ht
  cases a with
  | advance ready => exact h.advance ready
  | selfPush functor => exact h.emplaceBack functor
  | selfWake => exact h.finishOwn
  | selfQuit => exact h
  | push u functor => exact h.emplaceBack functor
  | wake u => exact h.finishPush u
  | quit u => exact h
  | quitWake u => exact h
  | join u => exact h

/-- Every interleaving executes the queued functors exactly once and in the
order of the pushes. -/
theorem functors_in_order (shared : Bool) (actions : List (LoopAction F T)) :
    Throughout step InOrder (State.create shared) actions :=
  throughout_of_step inOrder_step actions (inOrder_create shared)

end Threads

/-- Two threads queue a functor each, and the first functor queues another. -/
example : (run step (State.create true : State ℕ Bool)
    ([.push true 1, .wake true, .push false 2, .wake false] ++ List.replicate 5 (.advance false) ++
      [.advance true] ++ List.replicate 5 (.advance false) ++ [.selfPush 3, .selfWake] ++
      List.replicate 3 (.advance false))).map (fun s => (s.executed, s.pendingFunctors)) =
    some ([1, 2], [3]) := by decide

/-- An executed call is the one queued at its position. -/
theorem InOrder.executed_prefix {s : State F T} (h : InOrder s) : s.executed <+: s.queued :=
  ⟨s.pc.unexecuted ++ s.pendingFunctors, by rw [← List.append_assoc]; exact h⟩

/-- The calls not pending any more. -/
theorem InOrder.length {s : State F T} (h : InOrder s) :
    s.executed.length + s.pc.unexecuted.length + s.pendingFunctors.length = s.queued.length := by
  rw [← h, List.length_append, List.length_append]

end Netmux.FunctorHistory
