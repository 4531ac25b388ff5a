import Netmux.EventLoop

/-!
# No lost wakeup

A loop that waits in `poll` while functors are pending has been told: its
eventfd is positive, or another thread has pushed a functor and is about to
write. `queueInLoop` leaves out the write on the loop's own thread while no
batch is running; those functors are caught by the swap that ends the same
iteration, and what is queued while a batch runs is announced.

A functor that the loop's thread queues before it enters `loop()` is neither
caught nor announced, so the runs here do without.
-/
namespace Netmux.LoopWakeup
open ActionRuns EventLoop

variable {F T : Type}

/-- The eventfd is positive, or some thread is still to write to it. -/
def Announced (s : State F T) : Prop :=
  0 < s.counter ∨ ∃ t, (s.threads t).hasPushed = true

/-- Waiting with functors pending is announced. -/
def NoLostWakeup (s : State F T) : Prop :=
  s.pc = .poll → s.pendingFunctors ≠ [] → Announced s

/-- The loop's thread queues nothing before it enters `loop()`. -/
def NothingBeforehand (s : State F T) : LoopAction F T → Prop
  | .selfPush _ => s.pc ≠ .initCallback
  | _ => True

instance [DecidableEq F] (s : State F T) : (a : LoopAction F T) → Decidable (NothingBeforehand s a)
  | .selfPush _ => inferInstanceAs (Decidable (_ ≠ _))
  | .advance _ | .selfWake | .selfQuit | .push _ _ | .wake _ | .quit _ | .quitWake _ | .join _ =>
      isTrue trivial

/-- Batches run exactly between the store that announces them and the one that
ends them. -/
def calling : Pc F → Bool
  | .swap | .batch _ | .running _ _ => true
  | _ => false

/-- Pending functors are announced, or about to be swapped out, or just queued
by a functor that goes on to announce them. -/
structure Cared (s : State F T) : Prop where
  calls : s.callingPendingFunctors = calling s.pc
  ownCode : s.own ≠ none → s.pc.inUserCode = true ∧ s.pc ≠ .initCallback
  pending : s.pendingFunctors ≠ [] → Announced s ∨ s.pc.collecting = true ∨ s.own ≠ none

theorem Cared.noLostWakeup {s : State F T} (h : Cared s) : NoLostWakeup s := by
  intro hpc hp
  rcases h.pending hp with ha | hc | ho
  · exact ha
  · simp [hpc, Pc.collecting] at hc
  · have huser := (h.ownCode ho).1
    simp [hpc, Pc.inUserCode] at huser

theorem cared_create (shared : Bool) : Cared (State.create shared : State F T) :=
  ⟨rfl, fun h => absurd rfl h, fun h => absurd rfl h⟩

/-- A statement of the loop's thread, none of whose own calls is under way. -/
theorem Cared.advance {s : State F T} (h : Cared s) (ready : Bool) (ho : s.own = none) :
    Cared (s.advance ready) := by
  have hcalls := h.calls
  have hp : s.pendingFunctors ≠ [] → Announced s ∨ s.pc.collecting = true := by
    intro hne
    simpa [ho] using h.pending hne
  unfold State.advance
  cases hpc : s.pc with
  | testQuit =>
      rw [hpc] at hcalls hp
      cases hq : s.quit
      · exact ⟨hcalls, fun hn => absurd ho hn, fun hne => (hp hne).imp_right .inl⟩
      · exact ⟨hcalls, fun hn => absurd ho hn, fun hne => (hp hne).imp_right .inl⟩
  | dispatch wakeup =>
      rw [hpc] at hcalls
      cases wakeup
      · exact ⟨hcalls, fun hn => absurd ho hn, fun _ => .inr (.inl rfl)⟩
      · exact ⟨hcalls, fun hn => absurd ho hn, fun _ => .inr (.inl rfl)⟩
  | poll =>
      rw [hpc] at hcalls
      exact ⟨hcalls, fun hn => absurd ho hn, fun _ => .inr (.inl rfl)⟩
  | setCalling => exact ⟨rfl, fun hn => absurd ho hn, fun _ => .inr (.inl rfl)⟩
  | swap =>
      rw [hpc] at hcalls
      exact ⟨hcalls, fun hn => absurd ho hn, fun hne => absurd rfl hne⟩
  | batch functors =>
      rw [hpc] at hcalls hp
      cases functors
      · exact ⟨rfl, fun hn => absurd ho hn, fun hne => (hp hne).imp_right .inl⟩
      · exact ⟨hcalls, fun hn => absurd ho hn, fun hne => (hp hne).imp_right .inl⟩
  | initCallback | publish | setLooping | resetQuit | running functor functors | clearLooping
  | returned | finished =>
      rw [hpc] at hcalls hp
      exact ⟨hcalls, fun hn => absurd ho hn, fun hne => (hp hne).imp_right .inl⟩

/-- The loop's own thread queues from user code inside `loop()`. -/
theorem Cared.selfPush {s : State F T} (h : Cared s) (functor : F)
    (hu : s.pc.inUserCode = true) (hl : s.pc ≠ .initCallback) :
    Cared { s.emplaceBack functor with own := some s.queued.length } :=
  ⟨h.calls, fun _ => ⟨hu, hl⟩, fun _ => .inr (.inr (Option.some_ne_none _))⟩

/-- Its `queueInLoop` ends: within a batch it writes to the eventfd, within a
dispatch the swap is still to come. -/
theorem Cared.finishOwn {s : State F T} (h : Cared s) (ho : s.own.isSome = true) :
    Cared s.finishOwn := by
  obtain ⟨index, hown⟩ := Option.isSome_iff_exists.mp ho
  obtain ⟨huser, hinit⟩ := h.ownCode (by simp [hown])
  have hcalls := h.calls
  unfold State.finishOwn
  rw [hown]
  dsimp only
  split_ifs with hcall
  · exact ⟨hcalls, fun hn => absurd rfl hn, fun _ => .inl (.inl (Nat.succ_pos _))⟩
  · refine ⟨hcalls, fun hn => absurd rfl hn, fun _ => .inr (.inl ?_)⟩
    cases hpc : s.pc <;> simp_all [calling, Pc.inUserCode, Pc.collecting]

section Threads
variable [DecidableEq T]

/-- A thread that was not about to write changes its state. -/
theorem Announced.update {s : State F T} (h : Announced s) {t : T} (ht : s.threads t = .idle)
    (c : Caller) : Announced { s with threads := Function.update s.threads t c } := by
  rcases h with hc | ⟨u, hu⟩
  · exact .inl hc
  · have hne : u ≠ t := by
      rintro rfl
      simp [ht, Caller.hasPushed] at hu
    exact .inr ⟨u, by simpa [hne] using hu⟩

theorem Cared.push {s : State F T} (h : Cared s) (t : T) (functor : F) (index : ℕ) :
    Cared { s.emplaceBack functor with
      threads := Function.update s.threads t (.pushed index) } :=
  ⟨h.calls, h.ownCode, fun _ => .inl (.inr ⟨t, by simp [Caller.hasPushed]⟩)⟩

theorem Cared.finishPush {s : State F T} (h : Cared s) (t : T) : Cared (s.finishPush t) := by
  unfold State.finishPush
  cases s.threads t with
  | pushed index => exact ⟨h.calls, h.ownCode, fun _ => .inl (.inl (Nat.succ_pos _))⟩
  | idle | quitStored | joined => exact h

/-- Steps that leave the loop and its queue alone keep the announcement. -/
theorem Cared.update {s : State F T} (h : Cared s) {t : T} (ht : s.threads t = .idle)
    (c : Caller) : Cared { s with threads := Function.update s.threads t c } :=
  ⟨h.calls, h.ownCode, fun hne => (h.pending hne).imp_left fun ha => ha.update ht c⟩

theorem cared_step (s : State F T) (a : LoopAction F T) (t : State F T) (h : Cared s)
    (hn : NothingBeforehand s a) (ht : step s a = some t) : Cared t := by
  obtain ⟨he, rfl⟩ := step_eq_some.mp ht
  cases a with
  | advance ready => exact h.advance ready he.1
  | selfPush functor => exact h.selfPush functor he.2 hn
  | selfWake => exact h.finishOwn he
  | selfQuit => exact ⟨h.calls, h.ownCode, h.pending⟩
  | push u functor => exact h.push u functor _
  | wake u => exact h.finishPush u
  | quit u =>
      have hu := h.update he.2.2 .quitStored
      exact ⟨hu.calls, hu.ownCode, hu.pending⟩
  | quitWake u => exact ⟨h.calls, h.ownCode, fun _ => .inl (.inl (Nat.succ_pos _))⟩
  | join u => exact h.update he.2 .joined

/-- In every interleaving whose loop thread queues nothing before it enters
`loop()`, a wait with functors pending is announced. -/
theorem no_lost_wakeup (shared : Bool) {actions : List (LoopAction F T)}
    (h : Meets step NothingBeforehand (State.create shared) actions) :
    Throughout step NoLostWakeup (State.create shared) actions :=
  throughout_of_meets cared_step (fun _ => Cared.noLostWakeup) (cared_create shared) h

end Threads

/-- Another thread pushes while the loop's thread is about to wait. -/
def pushedInto : List (LoopAction ℕ Bool) :=
  [.advance false, .advance false, .advance false, .advance false, .push true 7,
    .advance false, .wake true]

theorem no_lost_wakeup_pushedInto :
    Throughout step NoLostWakeup (State.create true) pushedInto :=
  no_lost_wakeup true (by decide)

end Netmux.LoopWakeup
