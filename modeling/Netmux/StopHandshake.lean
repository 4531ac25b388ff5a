import Netmux.ThreadHandshake

/-!
# Stopping a loop's thread

The destructor tests `loop_` and calls `quit` through it, both without the lock,
while `threadFunc` may clear `loop_` and destroy the loop. A loop that somebody
else quits can be cleared from `loop_` after the test, so that `quit` is called
through null, or be gone by the time it is called. The destructor's own request
can end the loop as well, before `quit` has written to the eventfd.

Where `threadFunc` does neither in between, `quit` runs on a loop that exists.
The other half needs no luck: a destructor that finds null comes after the second
critical section, and one that joins comes after the end of the thread.
-/
namespace Netmux.StopHandshake
open ActionRuns ThreadHandshake
open EventLoop (Pc LoopAction)

variable {F T A : Type}

/-- `threadFunc` does not clear `loop_` between the destructor's test and its
second read, and does not destroy the loop from there to the end of `quit`. -/
def Undisturbed (s : EventLoopThread F T A) : ThreadAction F T → Prop
  | .clear => s.owner ≠ .tested
  | .onLoop (.advance _) => s.eventLoop.pc.hasReturned = true → s.owner.inQuit = false
  | _ => True

instance [DecidableEq A] (s : EventLoopThread F T A) :
    (a : ThreadAction F T) → Decidable (Undisturbed s a)
  | .clear => inferInstanceAs (Decidable (_ ≠ _))
  | .onLoop (.advance _) => inferInstanceAs (Decidable (_ → _))
  | .onLoop (.selfPush _) | .onLoop .selfWake | .onLoop .selfQuit | .onLoop (.push _ _)
  | .onLoop (.wake _) | .onLoop (.quit _) | .onLoop (.quitWake _) | .onLoop (.join _)
  | .handOut | .lock | .wake | .spurious | .read | .test | .call | .store | .wakeup | .join =>
      isTrue trivial

/-- If the destructor has called `quit` it was on a loop that existed, and it has
completed only after `threadFunc` was done with `mutex_`, `cond_` and `loop_`. -/
def Safe (s : EventLoopThread F T A) : Prop :=
  s.owner ≠ .misused ∧ (s.owner = .destroyed → s.cleared = true)

/-- A loop that the destructor has tested is still in `loop_`, and one that it
quits still exists. -/
structure Sound (s : EventLoopThread F T A) : Prop where
  record : Recorded s
  tested : s.owner = .tested → s.cleared = false
  inQuit : s.owner.inQuit = true → s.eventLoop.pc.alive = true
  safe : Safe s

theorem sound_create (address : A) :
    Sound (EventLoopThread.create address : EventLoopThread F T A) where
  record := recorded_create address
  tested := by
    intro h
    cases h
  inQuit := by
    intro h
    cases h
  safe := by
    refine ⟨fun h => ?_, fun h => ?_⟩ <;> cases h

/-- The owner is neither using the loop nor past it. -/
def aside : Owner A → Bool
  | .starting | .waiting | .copied _ | .started | .joining => true
  | _ => false

theorem aside_testLoop (s : EventLoopThread F T A) : aside s.testLoop.owner = true := by
  unfold EventLoopThread.testLoop
  cases s.loop <;> rfl

theorem Sound.of_aside {s : EventLoopThread F T A} (h : Recorded s)
    (ho : aside s.owner = true) : Sound s := by
  have hrest : s.owner ≠ .tested ∧ s.owner.inQuit = false ∧ s.owner ≠ .misused ∧
      s.owner ≠ .destroyed := by
    revert ho
    cases s.owner <;> simp [aside, Owner.inQuit]
  obtain ⟨htested, hquit, hmisused, hdestroyed⟩ := hrest
  refine ⟨h, fun ht => absurd ht htested, fun hq => ?_, hmisused, fun hd => absurd hd hdestroyed⟩
  rw [hquit] at hq
  cases hq

theorem Sound.of_destroyed {s : EventLoopThread F T A} (h : Recorded s)
    (ho : s.owner = .destroyed) (hc : s.cleared = true) : Sound s := by
  refine ⟨h, ?_, ?_, ?_, fun _ => hc⟩
  · simp [ho]
  · simp [ho, Owner.inQuit]
  · simp [ho]

theorem Sound.of_inQuit {s : EventLoopThread F T A} (h : Recorded s) (ho : s.owner.inQuit = true)
    (ha : s.eventLoop.pc.alive = true) : Sound s := by
  refine ⟨h, ?_, fun _ => ha, ?_, ?_⟩ <;>
  · intro howner
    rw [howner] at ho
    cases ho

theorem Sound.of_tested {s : EventLoopThread F T A} (h : Recorded s) (ho : s.owner = .tested)
    (hc : s.cleared = false) : Sound s := by
  refine ⟨h, fun _ => hc, ?_, ?_, ?_⟩
  · simp [ho, Owner.inQuit]
  · simp [ho]
  · simp [ho]

/-- The destructor finds a loop that is still in `loop_`, or finds it cleared. -/
theorem Sound.testDestructor {s : EventLoopThread F T A} (h : Recorded s)
    (ho : s.owner = .started) (hr : Recorded s.testDestructor) : Sound s.testDestructor := by
  have hnull := h.null_iff (by rw [ho]; rfl)
  cases hloop : s.loop with
  | none =>
      have hnext : s.testDestructor.owner = .destroyed := by
        simp [EventLoopThread.testDestructor, hloop]
      exact Sound.of_destroyed hr hnext (hnull.mp hloop)
  | some loop =>
      have hnext : s.testDestructor.owner = .tested := by
        simp [EventLoopThread.testDestructor, hloop]
      refine Sound.of_tested hr hnext (eq_false_of_ne_true fun hc => ?_)
      rw [hnull.mpr hc] at hloop
      cases hloop

/-- The second read finds the loop that the first one found. -/
theorem Sound.callQuit {s : EventLoopThread F T A} (h : Sound s) (ho : s.owner = .tested)
    (hr : Recorded s.callQuit) : Sound s.callQuit := by
  have hopen := h.tested ho
  have hnull := h.record.null_iff (by rw [ho]; rfl)
  cases hloop : s.loop with
  | none =>
      rw [hnull.mp hloop] at hopen
      cases hopen
  | some loop =>
      refine Sound.of_inQuit hr (by simp [EventLoopThread.callQuit, hloop, Owner.inQuit]) ?_
      by_contra hdead
      rw [h.record.destroyed (eq_false_of_ne_true hdead)] at hopen
      cases hopen

section Steps
variable [DecidableEq T]

theorem Sound.onLoop {s : EventLoopThread F T A} {a : LoopAction F T} (h : Sound s)
    (hc : Undisturbed s (.onLoop a)) (hr : Recorded (s.onLoop a)) : Sound (s.onLoop a) := by
  have howner := onLoop_owner s a
  have hcleared : (s.onLoop a).cleared = s.cleared := (after_frame s (.onLoop a)).cleared (by simp)
  refine ⟨hr, ?_, ?_, ?_⟩
  · rw [howner, hcleared]
    exact h.tested
  · rw [howner, onLoop_eventLoop]
    intro hquit
    cases a with
    | advance ready =>
        apply follows_alive (EventLoop.advance_follows s.eventLoop ready)
        by_contra hreturned
        have hfree := hc (eq_true_of_ne_false hreturned)
        rw [hquit] at hfree
        cases hfree
    | selfPush _ | selfWake | selfQuit | push _ _ | wake _ | quit _ | quitWake _ | join _ =>
        rw [after_pc (by simp)]
        exact h.inQuit hquit
  · unfold Safe
    rw [howner, hcleared]
    exact h.safe

variable [DecidableEq A]

theorem sound_step (s : EventLoopThread F T A) (a : ThreadAction F T) (t : EventLoopThread F T A)
    (h : Sound s) (hc : Undisturbed s a) (ht : step s a = some t) : Sound t := by
  have hr := recorded_step s a t h.record ht
  obtain ⟨he, rfl⟩ := step_eq_some.mp ht
  cases a with
  | onLoop a => exact h.onLoop hc hr
  | handOut => exact ⟨hr, h.tested, h.inQuit, h.safe⟩
  | clear => exact ⟨hr, fun ho => absurd ho hc, h.inQuit, h.safe.1, fun _ => rfl⟩
  | lock | spurious => exact Sound.of_aside hr (aside_testLoop s)
  | wake => exact Sound.of_aside hr (aside_testLoop { s with notified := false })
  | read => exact Sound.of_aside hr rfl
  | test => exact Sound.testDestructor h.record he hr
  | call => exact h.callQuit he hr
  | store =>
      have halive := h.inQuit (Owner.inQuit_of_isCalling he)
      have hafter : after s .store =
          { s with eventLoop := s.eventLoop.storeQuit, owner := .quitStored } := if_pos halive
      rw [hafter] at hr ⊢
      exact Sound.of_inQuit hr rfl halive
  | wakeup =>
      have halive := h.inQuit (by rw [show s.owner = .quitStored from he]; rfl)
      have hafter : after s .wakeup = { s with
          eventLoop := { s.eventLoop.wakeup with quitDone := true }
          owner := .joining } := if_pos halive
      rw [hafter] at hr ⊢
      exact Sound.of_aside hr rfl
  | join => exact Sound.of_destroyed hr rfl (h.record.destroyed he.2)

/-- The destructor is about to use a loop that is gone, or has done so. -/
structure Spoilt (s : EventLoopThread F T A) : Prop where
  record : Recorded s
  late : (s.owner = .tested ∧ s.cleared = true) ∨
    (s.owner.inQuit = true ∧ s.eventLoop.pc.alive = false) ∨ s.owner = .misused

theorem spoilt_of_disturbed (s : EventLoopThread F T A) (a : ThreadAction F T)
    (t : EventLoopThread F T A) (h : Recorded s) (hc : ¬ Undisturbed s a)
    (ht : step s a = some t) : Spoilt t := by
  refine ⟨recorded_step s a t h ht, ?_⟩
  obtain ⟨he, rfl⟩ := step_eq_some.mp ht
  cases a with
  | clear => exact .inl ⟨not_not.mp hc, rfl⟩
  | onLoop a =>
      cases a with
      | advance ready =>
          obtain ⟨hreturned, hquit⟩ := Classical.not_imp.mp hc
          refine .inr (.inl ⟨?_, ?_⟩)
          · exact (congrArg Owner.inQuit (onLoop_owner s _)).trans (eq_true_of_ne_false hquit)
          · have hnext : (s.onLoop (.advance ready)).eventLoop = s.eventLoop.advance ready :=
              onLoop_eventLoop s _
            change (s.onLoop (.advance ready)).eventLoop.pc.alive = false
            rw [hnext, follows_returned (EventLoop.advance_follows s.eventLoop ready) hreturned]
            rfl
      | selfPush _ | selfWake | selfQuit | push _ _ | wake _ | quit _ | quitWake _ | join _ =>
          exact absurd trivial hc
  | handOut | lock | wake | spurious | read | test | call | store | wakeup | join =>
      exact absurd trivial hc

theorem spoilt_step (s : EventLoopThread F T A) (a : ThreadAction F T) (t : EventLoopThread F T A)
    (h : Spoilt s) (ht : step s a = some t) : Spoilt t := by
  refine ⟨recorded_step s a t h.record ht, ?_⟩
  obtain ⟨he, rfl⟩ := step_eq_some.mp ht
  rcases h.late with ⟨ho, hc⟩ | ⟨ho, hd⟩ | ho
  · cases a with
    | onLoop a =>
        exact .inl ⟨(onLoop_owner s a).trans ho, ((after_frame s _).cleared (by simp)).trans hc⟩
    | handOut => exact .inl ⟨ho, hc⟩
    | clear => exact .inl ⟨ho, rfl⟩
    | call =>
        have hnone := (h.record.null_iff (by rw [ho]; rfl)).mpr hc
        exact .inr (.inr (by simp [after, EventLoopThread.callQuit, hnone]))
    | lock | wake | spurious | read | test | store | wakeup | join =>
        simp [Enabled, ho, Owner.hasCopied, Owner.isCalling] at he
  · cases a with
    | onLoop a =>
        refine .inr (.inl ⟨(congrArg Owner.inQuit (onLoop_owner s a)).trans ho, ?_⟩)
        have hpc : (EventLoop.after s.eventLoop a).pc = s.eventLoop.pc := by
          apply after_pc
          rintro ready rfl
          rw [he.1.2.1] at hd
          cases hd
        change (s.onLoop a).eventLoop.pc.alive = false
        rw [onLoop_eventLoop, hpc, hd]
    | handOut => exact .inr (.inl ⟨ho, hd⟩)
    | clear => exact .inr (.inl ⟨ho, hd⟩)
    | store => exact .inr (.inr (by simp [after, EventLoopThread.storeQuit, hd]))
    | wakeup => exact .inr (.inr (by simp [after, EventLoopThread.wakeup, hd]))
    | lock | spurious | test | call =>
        rw [show s.owner = _ from he] at ho
        cases ho
    | wake | join =>
        rw [he.1] at ho
        cases ho
    | read =>
        have hstarted := Owner.hasStarted_of_inQuit ho
        rw [Owner.hasStarted_of_hasCopied he] at hstarted
        cases hstarted
  · cases a with
    | onLoop a => exact .inr (.inr ((onLoop_owner s a).trans ho))
    | handOut | clear => exact .inr (.inr ho)
    | lock | wake | spurious | read | test | call | store | wakeup | join =>
        simp [Enabled, ho, Owner.hasCopied, Owner.isCalling] at he

/-- In every interleaving that leaves the loop alone between the destructor's
test and the end of its `quit`, the destructor is safe. Conversely a run that
ends outside of that stretch has been safe only if it did so. -/
theorem destructor_safe_iff (address : A) {actions : List (ThreadAction F T)}
    {s : EventLoopThread F T A}
    (h : run step (EventLoopThread.create address) actions = some s) :
    (Meets step Undisturbed (EventLoopThread.create address) actions →
      Throughout step Safe (EventLoopThread.create address) actions) ∧
    (s.owner ≠ .tested → s.owner.inQuit = false →
      Throughout step Safe (EventLoopThread.create address) actions →
        Meets step Undisturbed (EventLoopThread.create address) actions) := by
  refine ⟨throughout_of_meets sound_step (fun _ => Sound.safe) (sound_create address), ?_⟩
  intro htested hquit hsafe
  have hend : ¬ Spoilt s := by
    rintro ⟨-, ⟨ho, -⟩ | ⟨ho, -⟩ | ho⟩
    · exact htested ho
    · rw [hquit] at ho
      cases ho
    · exact (hsafe.last h).1 ho
  exact meets_of_run (fun s a t hr _ ht => recorded_step s a t hr ht) spoilt_of_disturbed
    spoilt_step (recorded_create address) h hend

end Steps

instance [DecidableEq A] (s : EventLoopThread F T A) : Decidable (Safe s) :=
  inferInstanceAs (Decidable (_ ∧ _))

/-- `startLoop` has returned, and the loop has reset `quit_` and is to test it. -/
def runningLoop : List (ThreadAction ℕ Bool) :=
  [.onLoop (.advance false), .onLoop (.advance false), .lock, .read, .onLoop (.advance false),
    .onLoop (.advance false)]

/-- The loop ends after the destructor's request, which joins the thread. -/
def stopped : List (ThreadAction ℕ Bool) :=
  runningLoop ++ [.test, .call, .store, .wakeup, .onLoop (.advance false),
    .onLoop (.advance false), .clear, .onLoop (.advance false), .join]

theorem destructor_safe_iff_stopped :
    ∃ s ∈ run step (EventLoopThread.create 100) stopped, s.owner = .destroyed ∧
      Throughout step Safe (EventLoopThread.create 100) stopped ∧
      Meets step Undisturbed (EventLoopThread.create 100) stopped := by
  obtain ⟨s, hs, ho⟩ : ∃ s ∈ run step (EventLoopThread.create 100) stopped,
      s.owner = .destroyed := by decide +kernel
  obtain ⟨hsafe, hmeets⟩ := destructor_safe_iff 100 hs
  have hall := hsafe (by decide +kernel)
  exact ⟨s, hs, ho, hall, hmeets (by simp [ho]) (by simp [ho, Owner.inQuit]) hall⟩

/-- Another thread quits the loop, and `loop_` is cleared after the test. -/
def clearedAfterTest : List (ThreadAction ℕ Bool) :=
  runningLoop ++ [.onLoop (.quit true), .onLoop (.quitWake true), .onLoop (.advance false),
    .onLoop (.advance false), .test, .clear, .call]

/-- The destructor alone quits the loop, which is destroyed before the destructor
writes to the eventfd. -/
def destroyedBeforeWakeup : List (ThreadAction ℕ Bool) :=
  runningLoop ++ [.test, .call, .store, .onLoop (.advance false), .onLoop (.advance false),
    .clear, .onLoop (.advance false), .wakeup]

theorem destructor_quits_no_loop :
    (∃ s ∈ run step (EventLoopThread.create 100) clearedAfterTest,
      s.owner = .misused ∧ s.loop = none ∧ ¬ Safe s) ∧
    ∃ s ∈ run step (EventLoopThread.create 100) destroyedBeforeWakeup,
      s.owner = .misused ∧ s.eventLoop.pc = .finished ∧ ¬ Safe s := by
  decide +kernel

end Netmux.StopHandshake
