import Netmux.EventLoop

/-!
# The thread of a loop

`EventLoopThread`. Its thread runs `threadFunc`, which constructs the loop, calls
the callback, publishes the loop's address in `loop_`, runs `loop()`, clears
`loop_` and destroys the loop. Its owner starts the thread, waits in `startLoop`
for the address and calls the destructor later on. A critical section under
`mutex_` is one step, and so are an access to `loop_` outside of one and a return
from `cond_.wait`, notified or not. A `quit` of the destructor is the store and
the eventfd write it is elsewhere.

Other threads use the loop once it was handed out, by user code on the loop's
thread or by `startLoop`. They are trusted to stop before the loop is gone; the
destructor is not, and a call on no loop ends what is said about it.
-/
namespace Netmux.ThreadHandshake
open ActionRuns
open EventLoop (Pc LoopAction)

variable {F T A : Type}

/-- The owner, between two steps of `startLoop` and of the destructor. -/
inductive Owner (A : Type) where
  | starting
  | waiting
  /-- `loop_` was not null and is copied to the local variable. -/
  | copied (loop : A)
  | started
  | tested
  | calling (loop : A)
  | quitStored
  | joining
  | destroyed
  /-- `quit` was called through a null pointer or on a destroyed loop. -/
  | misused
  deriving DecidableEq, Repr

namespace Owner

def hasCopied : Owner A → Bool
  | copied _ => true
  | _ => false

def isCalling : Owner A → Bool
  | calling _ => true
  | _ => false

/-- `startLoop` has left its critical section. -/
def pastWait : Owner A → Bool
  | starting | waiting => false
  | _ => true

/-- `startLoop` has returned. -/
def hasStarted : Owner A → Bool
  | starting | waiting | copied _ => false
  | _ => true

/-- The destructor is inside `quit`. -/
def inQuit : Owner A → Bool
  | calling _ | quitStored => true
  | _ => false

theorem inQuit_of_isCalling {o : Owner A} (h : o.isCalling = true) : o.inQuit = true := by
  cases o <;> first | rfl | cases h

theorem hasStarted_of_inQuit {o : Owner A} (h : o.inQuit = true) : o.hasStarted = true := by
  cases o <;> first | rfl | cases h

theorem pastWait_of_hasCopied {o : Owner A} (h : o.hasCopied = true) : o.pastWait = true := by
  cases o <;> first | rfl | cases h

theorem hasStarted_of_hasCopied {o : Owner A} (h : o.hasCopied = true) :
    o.hasStarted = false := by
  cases o <;> first | rfl | cases h

theorem pastWait_of_hasStarted {o : Owner A} (h : o.hasStarted = true) : o.pastWait = true := by
  cases o <;> first | rfl | cases h

end Owner

/-- `threadFunc` has yet to execute its first critical section. -/
def unpublished : Pc F → Bool
  | .initCallback | .publish => true
  | _ => false

/-- The object, with the local loop of `threadFunc` and the address of that.
`result` is what `startLoop` has returned. -/
structure EventLoopThread (F T A : Type) where
  eventLoop : EventLoop.State F T
  address : A
  loop : Option A
  cleared : Bool
  handedOut : Bool
  owner : Owner A
  notified : Bool
  result : Option (Option A)

inductive ThreadAction (F T : Type) where
  | onLoop (a : LoopAction F T)
  | handOut
  | clear
  | lock
  | wake
  | spurious
  | read
  | test
  | call
  | store
  | wakeup
  | join

namespace EventLoopThread

/-- The thread is started and has constructed its loop. Who else has the loop is
`handedOut`, so that for the loop itself it is shared. -/
def create (address : A) : EventLoopThread F T A where
  eventLoop := EventLoop.State.create true
  address := address
  loop := none
  cleared := false
  handedOut := false
  owner := .starting
  notified := false
  result := none

/-- `loop_=&loop`, and `notify_one`, which a thread not waiting does not hear. -/
def publish (s : EventLoopThread F T A) : EventLoopThread F T A :=
  { s with
    loop := some s.address
    notified := match s.owner with
      | .waiting => true
      | _ => s.notified }

/-- `while(loop_==nullptr)` under the lock. -/
def testLoop (s : EventLoopThread F T A) : EventLoopThread F T A :=
  { s with
    owner := match s.loop with
      | none => .waiting
      | some loop => .copied loop }

/-- `return loop_`. -/
def returnLoop (s : EventLoopThread F T A) : EventLoopThread F T A :=
  { s with
    owner := .started
    result := some s.loop
    handedOut := s.handedOut || s.loop.isSome }

/-- `if(loop_!=nullptr)` in the destructor. -/
def testDestructor (s : EventLoopThread F T A) : EventLoopThread F T A :=
  { s with
    owner := match s.loop with
      | none => .destroyed
      | some _ => .tested }

/-- `loop_->quit()`, up to the first statement of `quit`. -/
def callQuit (s : EventLoopThread F T A) : EventLoopThread F T A :=
  { s with
    owner := match s.loop with
      | none => .misused
      | some loop => .calling loop }

def storeQuit (s : EventLoopThread F T A) : EventLoopThread F T A :=
  if s.eventLoop.pc.alive then
    { s with eventLoop := s.eventLoop.storeQuit, owner := .quitStored }
  else { s with owner := .misused }

def wakeup (s : EventLoopThread F T A) : EventLoopThread F T A :=
  if s.eventLoop.pc.alive then
    { s with eventLoop := { s.eventLoop.wakeup with quitDone := true }, owner := .joining }
  else { s with owner := .misused }

end EventLoopThread

/-- Whose turn a step on the loop is: `threadFunc` destroys it past the second
critical section, others have been given it, and the thread is not theirs. -/
def Permitted (s : EventLoopThread F T A) : LoopAction F T → Prop
  | .advance _ => s.eventLoop.pc.hasReturned = true → s.cleared = true
  | .push _ _ | .quit _ => s.handedOut = true
  | .join _ => False
  | .selfPush _ | .selfWake | .selfQuit | .wake _ | .quitWake _ => True

instance (s : EventLoopThread F T A) : (a : LoopAction F T) → Decidable (Permitted s a)
  | .advance _ => inferInstanceAs (Decidable (_ → _))
  | .push _ _ | .quit _ => inferInstanceAs (Decidable (_ = _))
  | .join _ => isFalse fun h => h
  | .selfPush _ | .selfWake | .selfQuit | .wake _ | .quitWake _ => isTrue trivial

def Enabled (s : EventLoopThread F T A) : ThreadAction F T → Prop
  | .onLoop a => EventLoop.Enabled s.eventLoop a ∧ Permitted s a
  | .handOut => s.eventLoop.pc.inUserCode = true
  | .clear => s.eventLoop.pc.hasReturned = true ∧ s.cleared = false
  | .lock => s.owner = .starting
  | .wake => s.owner = .waiting ∧ s.notified = true
  | .spurious => s.owner = .waiting
  | .read => s.owner.hasCopied = true
  | .test => s.owner = .started
  | .call => s.owner = .tested
  | .store => s.owner.isCalling = true
  | .wakeup => s.owner = .quitStored
  | .join => s.owner = .joining ∧ s.eventLoop.pc.alive = false

instance [DecidableEq A] (s : EventLoopThread F T A) :
    (a : ThreadAction F T) → Decidable (Enabled s a)
  | .onLoop _ | .clear | .wake | .join => inferInstanceAs (Decidable (_ ∧ _))
  | .handOut | .lock | .spurious | .read | .test | .call | .store | .wakeup =>
      inferInstanceAs (Decidable (_ = _))

section Steps
variable [DecidableEq T]

/-- A step on the loop. At the publication it is the first critical section. -/
def EventLoopThread.onLoop (s : EventLoopThread F T A) (a : LoopAction F T) :
    EventLoopThread F T A :=
  let next := { s with eventLoop := EventLoop.after s.eventLoop a }
  match a, s.eventLoop.pc with
  | .advance _, .publish => next.publish
  | _, _ => next

def after (s : EventLoopThread F T A) : ThreadAction F T → EventLoopThread F T A
  | .onLoop a => s.onLoop a
  | .handOut => { s with handedOut := true }
  | .clear => { s with loop := none, cleared := true }
  | .lock | .spurious => s.testLoop
  | .wake => { s with notified := false }.testLoop
  | .read => s.returnLoop
  | .test => s.testDestructor
  | .call => s.callQuit
  | .store => s.storeQuit
  | .wakeup => s.wakeup
  | .join => { s with owner := .destroyed }

variable [DecidableEq A]

def step (s : EventLoopThread F T A) (a : ThreadAction F T) : Option (EventLoopThread F T A) :=
  if Enabled s a then some (after s a) else none

theorem step_eq_some {s t : EventLoopThread F T A} {a : ThreadAction F T} :
    step s a = some t ↔ Enabled s a ∧ after s a = t := by
  simp only [step, Option.ite_none_right_eq_some, Option.some.injEq]

end Steps

/-! ### The loop's phase -/

theorem follows_unpublished {p q : Pc F} (h : p.Follows q) (hp : p ≠ .publish) :
    unpublished q = unpublished p := by
  cases h <;> first | rfl | exact absurd rfl hp

theorem follows_returned {p q : Pc F} (h : p.Follows q) (hp : p.hasReturned = true) :
    q = .finished := by
  cases h <;> first | rfl | cases hp

theorem follows_alive {p q : Pc F} (h : p.Follows q) (hp : p.hasReturned = false) :
    q.alive = true := by
  cases h <;> first | rfl | cases hp

theorem finishOwn_pc (s : EventLoop.State F T) : s.finishOwn.pc = s.pc := by
  unfold EventLoop.State.finishOwn
  cases s.own with
  | none => rfl
  | some index =>
      dsimp only
      split_ifs <;> rfl

theorem finishOwn_own (s : EventLoop.State F T) : s.finishOwn.own = none := by
  unfold EventLoop.State.finishOwn
  cases hown : s.own with
  | none => exact hown
  | some index => rfl

theorem finishPush_pc [DecidableEq T] (s : EventLoop.State F T) (t : T) :
    (s.finishPush t).pc = s.pc := by
  unfold EventLoop.State.finishPush
  cases s.threads t <;> rfl

/-- Only the loop's thread moves on in its program. -/
theorem after_pc [DecidableEq T] {s : EventLoop.State F T} {a : LoopAction F T}
    (h : ∀ ready, a ≠ .advance ready) : (EventLoop.after s a).pc = s.pc := by
  cases a with
  | advance ready => exact absurd rfl (h ready)
  | selfWake => exact finishOwn_pc s
  | wake t => exact finishPush_pc s t
  | selfPush _ | selfQuit | push _ _ | quit _ | quitWake _ | join _ => rfl

/-! ### The record -/

/-- `loop_` holds the address between the two critical sections of `threadFunc`,
the second comes after `loop()` and before the end, and whoever waits in between
has been notified. The owner gets on only once the loop is published. -/
structure Recorded (s : EventLoopThread F T A) : Prop where
  null : s.loop = none ↔ unpublished s.eventLoop.pc = true ∨ s.cleared = true
  same : ∀ loop, s.loop = some loop → loop = s.address
  returned : s.cleared = true → s.eventLoop.pc.hasReturned = true
  destroyed : s.eventLoop.pc.alive = false → s.cleared = true
  heard : s.owner = .waiting → s.loop ≠ none → s.notified = true
  published : s.owner.pastWait = true → unpublished s.eventLoop.pc = false
  result : s.result.isSome = s.owner.hasStarted

theorem recorded_create (address : A) :
    Recorded (EventLoopThread.create address : EventLoopThread F T A) where
  null := iff_of_true rfl (.inl rfl)
  same := by
    intro loop h
    cases h
  returned := by
    intro h
    cases h
  destroyed := by
    intro h
    cases h
  heard := by
    intro h
    cases h
  published := by
    intro h
    cases h
  result := rfl

namespace Recorded

/-- Past the wait `loop_` is null exactly if `threadFunc` has cleared it. -/
theorem null_iff {s : EventLoopThread F T A} (h : Recorded s) (ho : s.owner.pastWait = true) :
    s.loop = none ↔ s.cleared = true := by
  simp [h.null, h.published ho]

theorem loop_eq {s : EventLoopThread F T A} (h : Recorded s)
    (hp : unpublished s.eventLoop.pc = false) (hc : s.cleared = false) :
    s.loop = some s.address := by
  cases hloop : s.loop with
  | none =>
      have hnull := h.null.mp hloop
      simp [hp, hc] at hnull
  | some loop => rw [h.same loop hloop]

/-- Statements on the loop that leave its thread where it is. -/
theorem setLoop {s : EventLoopThread F T A} (h : Recorded s) {e : EventLoop.State F T}
    (hpc : e.pc = s.eventLoop.pc) : Recorded { s with eventLoop := e } :=
  ⟨hpc ▸ h.null, h.same, hpc ▸ h.returned, hpc ▸ h.destroyed, h.heard, hpc ▸ h.published,
    h.result⟩

/-- Steps of the destructor. -/
theorem setOwner {s : EventLoopThread F T A} (h : Recorded s) {o : Owner A}
    (hs : s.owner.hasStarted = true) (ho : o.hasStarted = true) :
    Recorded { s with owner := o } := by
  refine ⟨h.null, h.same, h.returned, h.destroyed, ?_, ?_, ?_⟩
  · rintro rfl
    cases ho
  · exact fun _ => h.published (Owner.pastWait_of_hasStarted hs)
  · exact h.result.trans (hs.trans ho.symm)

/-- The first critical section of `threadFunc`. -/
theorem publish {s : EventLoopThread F T A} (h : Recorded s) {e : EventLoop.State F T}
    (hpc : s.eventLoop.pc = .publish) (he : e.pc = .setLooping) :
    Recorded { s with eventLoop := e }.publish := by
  have hc : s.cleared = false := by
    by_contra hc
    have hr := h.returned (eq_true_of_ne_false hc)
    simp [hpc, Pc.hasReturned] at hr
  have hsome : some s.address ≠ none := Option.some_ne_none _
  refine ⟨?_, ?_, ?_, ?_, ?_, ?_, h.result⟩
  · refine iff_of_false hsome ?_
    simp [EventLoopThread.publish, he, hc, unpublished]
  · exact fun loop hloop => (Option.some.inj hloop).symm
  · exact fun hcleared => absurd hcleared (by simp [EventLoopThread.publish, hc])
  · intro hdead
    simp [EventLoopThread.publish, he, Pc.alive] at hdead
  · intro howner _
    have howner : s.owner = .waiting := howner
    simp [EventLoopThread.publish, howner]
  · exact fun _ => by simp [EventLoopThread.publish, he, unpublished]

/-- A statement of the loop's thread outside the critical sections; the last one
destroys the loop. -/
theorem advance {s : EventLoopThread F T A} (h : Recorded s) (ready : Bool)
    (hpc : s.eventLoop.pc ≠ .publish)
    (hp : s.eventLoop.pc.hasReturned = true → s.cleared = true) :
    Recorded { s with eventLoop := s.eventLoop.advance ready } := by
  have hnext := EventLoop.advance_follows s.eventLoop ready
  have hun := follows_unpublished hnext hpc
  refine ⟨?_, h.same, ?_, ?_, h.heard, ?_, h.result⟩
  · dsimp only
    rw [hun]
    exact h.null
  · intro hc
    dsimp only
    rw [follows_returned hnext (h.returned hc)]
    rfl
  · intro hdead
    by_contra hc
    have hr : s.eventLoop.pc.hasReturned = false := eq_false_of_ne_true fun hr => hc (hp hr)
    rw [follows_alive hnext hr] at hdead
    cases hdead
  · dsimp only
    rw [hun]
    exact h.published

/-- The second critical section of `threadFunc`. -/
theorem clear {s : EventLoopThread F T A} (h : Recorded s)
    (hr : s.eventLoop.pc.hasReturned = true) :
    Recorded { s with loop := none, cleared := true } where
  null := iff_of_true rfl (.inr rfl)
  same := by
    intro loop hloop
    cases hloop
  returned := fun _ => hr
  destroyed := fun _ => rfl
  heard := fun _ hloop => absurd rfl hloop
  published := h.published
  result := h.result

/-- The test of `loop_` in `startLoop`, after whatever notification. -/
theorem testLoop {s : EventLoopThread F T A} (h : Recorded s) (ho : s.owner.pastWait = false)
    (notified : Bool) : Recorded { s with notified := notified }.testLoop := by
  have hresult : s.result.isSome = false := by
    rw [h.result]
    by_contra hs
    rw [Owner.pastWait_of_hasStarted (eq_true_of_ne_false hs)] at ho
    cases ho
  refine ⟨h.null, h.same, h.returned, h.destroyed, ?_, ?_, ?_⟩
  · intro hwait hloop
    cases hnone : s.loop with
    | none => exact absurd hnone hloop
    | some loop => simp [EventLoopThread.testLoop, hnone] at hwait
  · intro hpast
    cases hloop : s.loop with
    | none => simp [EventLoopThread.testLoop, hloop, Owner.pastWait] at hpast
    | some loop =>
        by_contra hun
        have hnone := h.null.mpr (.inl (eq_true_of_ne_false hun))
        rw [hloop] at hnone
        cases hnone
  · cases s.loop <;> simp [EventLoopThread.testLoop, hresult, Owner.hasStarted]

theorem returnLoop {s : EventLoopThread F T A} (h : Recorded s) (ho : s.owner.hasCopied = true) :
    Recorded s.returnLoop := by
  have hpublished := h.published (Owner.pastWait_of_hasCopied ho)
  refine ⟨h.null, h.same, h.returned, h.destroyed, ?_, fun _ => hpublished, rfl⟩
  intro hwait
  cases hwait

end Recorded

section Steps
variable [DecidableEq T]

theorem onLoop_publish {s : EventLoopThread F T A} (hpc : s.eventLoop.pc = .publish)
    (ready : Bool) : s.onLoop (.advance ready) =
      { s with eventLoop := s.eventLoop.advance ready }.publish := by
  unfold EventLoopThread.onLoop
  rw [hpc]
  rfl

theorem onLoop_advance {s : EventLoopThread F T A} (hpc : s.eventLoop.pc ≠ .publish)
    (ready : Bool) : s.onLoop (.advance ready) =
      { s with eventLoop := s.eventLoop.advance ready } := by
  unfold EventLoopThread.onLoop
  split
  · exact absurd ‹_› hpc
  · rfl

theorem onLoop_owner (s : EventLoopThread F T A) (a : LoopAction F T) :
    (s.onLoop a).owner = s.owner := by
  unfold EventLoopThread.onLoop
  split <;> rfl

theorem onLoop_eventLoop (s : EventLoopThread F T A) (a : LoopAction F T) :
    (s.onLoop a).eventLoop = EventLoop.after s.eventLoop a := by
  unfold EventLoopThread.onLoop
  split <;> rfl

theorem Recorded.onLoop {s : EventLoopThread F T A} {a : LoopAction F T} (h : Recorded s)
    (hp : Permitted s a) : Recorded (s.onLoop a) := by
  cases a with
  | advance ready =>
      by_cases hpc : s.eventLoop.pc = .publish
      · rw [onLoop_publish hpc]
        exact h.publish hpc (by simp [EventLoop.State.advance, hpc])
      · rw [onLoop_advance hpc]
        exact h.advance ready hpc hp
  | selfPush _ | selfWake | selfQuit | push _ _ | wake _ | quit _ | quitWake _ | join _ =>
      exact h.setLoop (after_pc (by simp))

variable [DecidableEq A]

theorem recorded_step (s : EventLoopThread F T A) (a : ThreadAction F T) (t : EventLoopThread F T A)
    (h : Recorded s) (ht : step s a = some t) : Recorded t := by
  obtain ⟨he, rfl⟩ := step_eq_some.mp ht
  cases a with
  | onLoop a => exact h.onLoop he.2
  | handOut => exact ⟨h.null, h.same, h.returned, h.destroyed, h.heard, h.published, h.result⟩
  | clear => exact h.clear he.1
  | lock => exact h.testLoop (by rw [show s.owner = .starting from he]; rfl) s.notified
  | wake => exact h.testLoop (by rw [he.1]; rfl) false
  | spurious => exact h.testLoop (by rw [show s.owner = .waiting from he]; rfl) s.notified
  | read => exact h.returnLoop he
  | test =>
      have hs : s.owner.hasStarted = true := by rw [show s.owner = .started from he]; rfl
      exact h.setOwner hs (by cases s.loop <;> rfl)
  | call =>
      have hs : s.owner.hasStarted = true := by rw [show s.owner = .tested from he]; rfl
      exact h.setOwner hs (by cases s.loop <;> rfl)
  | store =>
      have hs := Owner.hasStarted_of_inQuit (Owner.inQuit_of_isCalling he)
      have hset : Recorded { s with eventLoop := s.eventLoop.storeQuit } := h.setLoop rfl
      change Recorded s.storeQuit
      unfold EventLoopThread.storeQuit
      split_ifs
      · exact hset.setOwner hs rfl
      · exact h.setOwner hs rfl
  | wakeup =>
      have hs : s.owner.hasStarted = true := by rw [show s.owner = .quitStored from he]; rfl
      have hset : Recorded { s with eventLoop := { s.eventLoop.wakeup with quitDone := true } } :=
        h.setLoop rfl
      change Recorded s.wakeup
      unfold EventLoopThread.wakeup
      split_ifs
      · exact hset.setOwner hs rfl
      · exact h.setOwner hs rfl
  | join => exact h.setOwner (by rw [he.1]; rfl) rfl

/-- The address is for good; one step clears `loop_` and one sets the result. -/
structure Frame (s t : EventLoopThread F T A) (a : ThreadAction F T) : Prop where
  address : t.address = s.address
  cleared : a ≠ .clear → t.cleared = s.cleared
  result : a ≠ .read → t.result = s.result

omit [DecidableEq A] in
theorem after_frame (s : EventLoopThread F T A) (a : ThreadAction F T) : Frame s (after s a) a := by
  cases a with
  | onLoop a =>
      change Frame s (s.onLoop a) _
      unfold EventLoopThread.onLoop
      split <;> exact ⟨rfl, fun _ => rfl, fun _ => rfl⟩
  | store =>
      change Frame s s.storeQuit _
      unfold EventLoopThread.storeQuit
      split_ifs <;> exact ⟨rfl, fun _ => rfl, fun _ => rfl⟩
  | wakeup =>
      change Frame s s.wakeup _
      unfold EventLoopThread.wakeup
      split_ifs <;> exact ⟨rfl, fun _ => rfl, fun _ => rfl⟩
  | clear => exact ⟨rfl, fun h => absurd rfl h, fun _ => rfl⟩
  | read => exact ⟨rfl, fun _ => rfl, fun h => absurd rfl h⟩
  | handOut | lock | wake | spurious | test | call | join =>
      exact ⟨rfl, fun _ => rfl, fun _ => rfl⟩

/-- An owner past `startLoop` stays past it. -/
theorem hasStarted_step {s t : EventLoopThread F T A} {a : ThreadAction F T} (h : Recorded s)
    (ht : step s a = some t) (ho : s.owner.hasStarted = true) : t.owner.hasStarted = true := by
  have hresult := (recorded_step s a t h ht).result
  obtain ⟨he, rfl⟩ := step_eq_some.mp ht
  rw [← hresult]
  cases a with
  | read => rfl
  | onLoop _ | handOut | clear | lock | wake | spurious | test | call | store | wakeup | join =>
      rw [(after_frame s _).result (by simp), h.result, ho]

end Steps

end Netmux.ThreadHandshake
