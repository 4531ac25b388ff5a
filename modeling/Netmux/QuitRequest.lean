import Netmux.EventLoop

/-!
# A quit request is kept

`loop()` starts with `quit_=false`, and `EventLoopThread` publishes the loop
before it calls `loop()`. A `quit` stored in between is overwritten: its
eventfd write wakes the loop once, which goes back to wait, and the destructor
that called it waits in `join`. In every other interleaving a completed request
stays until `loop()` returns.
-/
namespace Netmux.QuitRequest
open ActionRuns EventLoop

variable {F T : Type}

/-- `loop()` resets `quit_` only while nobody has set it. -/
def ResetHarmless (s : State F T) : LoopAction F T → Prop
  | .advance _ => s.pc = .resetQuit → s.quit = false
  | _ => True

/-- Once a `quit()` has completed the flag stays up, a wait under way ends, and
no other one begins. -/
def QuitKept (s : State F T) : Prop :=
  s.quitDone = true → s.quit = true ∧ (s.pc = .poll → 0 < s.counter) ∧
    ∀ ready, (s.advance ready).pc ≠ .poll

/-- A stored request is kept, and a completed one has written the eventfd if
the loop was waiting. -/
structure Requested (s : State F T) : Prop where
  done : s.quitDone = true → s.quit = true
  stored : ∀ t, s.threads t = .quitStored → s.quit = true
  waiting : s.pc = .poll → s.quitDone = true → 0 < s.counter

theorem requested_create (shared : Bool) : Requested (State.create shared : State F T) where
  done := by
    intro h
    cases h
  stored := by
    intro t h
    cases h
  waiting := by
    intro h
    cases h

theorem advance_polls {s : State F T} {ready : Bool} (h : (s.advance ready).pc = .poll) :
    s.pc = .testQuit ∧ s.quit = false := by
  unfold State.advance at h
  cases hpc : s.pc with
  | testQuit =>
      refine ⟨rfl, ?_⟩
      cases hq : s.quit
      · rfl
      · simp [hpc, hq] at h
  | dispatch wakeup => cases wakeup <;> simp [hpc] at h
  | batch functors => cases functors <;> simp [hpc] at h
  | initCallback | publish | setLooping | resetQuit | poll | setCalling | swap
  | running functor functors | clearLooping | returned | finished => simp [hpc] at h

theorem Requested.quitKept {s : State F T} (h : Requested s) : QuitKept s := by
  intro hdone
  refine ⟨h.done hdone, fun hpc => h.waiting hpc hdone, fun ready hpoll => ?_⟩
  have hquit := h.done hdone
  rw [(advance_polls hpoll).2] at hquit
  cases hquit

/-- Only the reset takes the flag down. -/
theorem advance_quit {s : State F T} (ready : Bool) (h : s.quit = true)
    (hreset : s.pc ≠ .resetQuit) : (s.advance ready).quit = true := by
  unfold State.advance
  cases hpc : s.pc with
  | resetQuit => exact absurd hpc hreset
  | dispatch wakeup => cases wakeup <;> exact h
  | batch functors => cases functors <;> exact h
  | initCallback | publish | setLooping | testQuit | poll | setCalling | swap
  | running functor functors | clearLooping | returned | finished => exact h

theorem Requested.advance {s : State F T} (h : Requested s) (ready : Bool)
    (hc : s.pc = .resetQuit → s.quit = false) : Requested (s.advance ready) := by
  have hs := advance_sameCalls s ready
  have hquit : s.quit = true → (s.advance ready).quit = true := by
    intro hq
    apply advance_quit ready hq
    intro hpc
    rw [hc hpc] at hq
    cases hq
  constructor
  · rw [hs.quitDone]
    exact fun hdone => hquit (h.done hdone)
  · rw [hs.threads]
    exact fun t ht => hquit (h.stored t ht)
  · rw [hs.quitDone]
    intro hpoll hdone
    have hup := h.done hdone
    rw [(advance_polls hpoll).2] at hup
    cases hup

theorem Requested.finishOwn {s : State F T} (h : Requested s) : Requested s.finishOwn := by
  unfold State.finishOwn
  cases s.own with
  | none => exact h
  | some index =>
      dsimp only
      split_ifs
      · exact ⟨h.done, h.stored, fun _ _ => Nat.succ_pos _⟩
      · exact ⟨h.done, h.stored, h.waiting⟩

section Requests
variable [DecidableEq T]

theorem Requested.setThread {s : State F T} (h : Requested s) (t : T) {c : Caller}
    (hc : c = .quitStored → s.quit = true) :
    Requested { s with threads := Function.update s.threads t c } := by
  refine ⟨h.done, fun u hu => ?_, h.waiting⟩
  dsimp only at hu
  rcases eq_or_ne u t with rfl | hne
  · exact hc (by simpa using hu)
  · exact h.stored u (by simpa [hne] using hu)

theorem Requested.finishPush {s : State F T} (h : Requested s) (t : T) :
    Requested (s.finishPush t) := by
  unfold State.finishPush
  cases s.threads t with
  | pushed index =>
      have hset := h.setThread t (c := .idle) fun hi => by cases hi
      exact ⟨hset.done, hset.stored, fun _ _ => Nat.succ_pos _⟩
  | idle | quitStored | joined => exact h

theorem requested_step (s : State F T) (a : LoopAction F T) (t : State F T) (h : Requested s)
    (hc : ResetHarmless s a) (ht : step s a = some t) : Requested t := by
  obtain ⟨he, rfl⟩ := step_eq_some.mp ht
  cases a with
  | advance ready => exact h.advance ready hc
  | selfPush functor => exact ⟨h.done, h.stored, h.waiting⟩
  | selfWake => exact h.finishOwn
  | selfQuit =>
      refine ⟨fun _ => rfl, fun _ _ => rfl, fun hpc _ => ?_⟩
      have huser := he.2
      simp [show s.pc = .poll from hpc, Pc.inUserCode] at huser
  | push u functor =>
      have hset := h.setThread u (c := .pushed s.queued.length) fun hi => by cases hi
      exact ⟨hset.done, hset.stored, hset.waiting⟩
  | wake u => exact h.finishPush u
  | quit u => exact ⟨fun _ => rfl, fun _ _ => rfl, h.waiting⟩
  | quitWake u =>
      have hquit := h.stored u he.2
      have hset := h.setThread u (c := .idle) fun hi => by cases hi
      exact ⟨fun _ => hquit, hset.stored, fun _ _ => Nat.succ_pos _⟩
  | join u => exact h.setThread u fun hi => by cases hi

/-- In every interleaving that resets `quit_` only while nobody has set it, no
completed request is forgotten. -/
theorem quit_request_kept (shared : Bool) {actions : List (LoopAction F T)}
    (h : Meets step ResetHarmless (State.create shared) actions) :
    Throughout step QuitKept (State.create shared) actions :=
  throughout_of_meets requested_step (fun _ => Requested.quitKept) (requested_create shared) h

end Requests

/-- A request completed before the reset is forgotten by it. -/
theorem reset_forgets {s : State F T} (hpc : s.pc = .resetQuit) (hdone : s.quitDone = true)
    (ready : Bool) : ¬ QuitKept (s.advance ready) := by
  intro hkept
  have hs := advance_sameCalls s ready
  have hquit := (hkept (hs.quitDone.trans hdone)).1
  simp [State.advance, hpc] at hquit

instance [DecidableEq F] (s : State F T) : (a : LoopAction F T) → Decidable (ResetHarmless s a)
  | .advance _ => inferInstanceAs (Decidable (_ → _))
  | .selfPush _ | .selfWake | .selfQuit | .push _ _ | .wake _ | .quit _ | .quitWake _ | .join _ =>
      isTrue trivial

/-- The owner of a published loop quits it once it waits. -/
def quitWhileWaiting : List (LoopAction ℕ Bool) :=
  List.replicate 5 (.advance false) ++ [.quit true, .quitWake true] ++ [.advance true] ++
    List.replicate 8 (.advance false) ++ [.join true]

theorem quit_request_kept_waiting :
    Throughout step QuitKept (State.create false) quitWhileWaiting :=
  quit_request_kept false (by decide)

/-- The same between the publication and the reset. The eventfd wakes the loop
once, and it goes back to wait. -/
def quitBeforeReset : List (LoopAction ℕ Bool) :=
  List.replicate 2 (.advance false) ++ [.quit true, .quitWake true] ++
    List.replicate 3 (.advance false) ++ [.advance true] ++ List.replicate 6 (.advance false)

theorem quit_before_reset_forgotten :
    ∃ s ∈ run step (State.create false) quitBeforeReset,
      s.pc = .poll ∧ s.counter = 0 ∧ ¬ QuitKept s := by
  obtain ⟨s, hs, hdone, hquit, hpc, hcounter⟩ : ∃ s ∈ run step (State.create false) quitBeforeReset,
      s.quitDone = true ∧ s.quit = false ∧ s.pc = .poll ∧ s.counter = 0 := by
    decide
  refine ⟨s, hs, hpc, hcounter, fun hkept => ?_⟩
  rw [(hkept hdone).1] at hquit
  cases hquit

end Netmux.QuitRequest
