import Netmux.FunctorHistory
import Netmux.QuitRequest

/-!
# Requests of the thread's callback

The callback of an `EventLoopThread` runs on the loop's thread before `loop()`.
A `queueInLoop` of it writes no eventfd, for it is on the loop's thread and no
batch is running, and the reset in `loop()` takes back a `quit` of it. So the
first wait may find functors pending and the eventfd at zero, and a second wait
may follow a request to quit.

Other threads may repair both. They have the loop from its publication on, and
an eventfd write of theirs before the first test of `quit_`, or a `quit` stored
after the reset, is what the callback's requests depend on.
-/
namespace Netmux.CallbackRequests
open ActionRuns FunctorHistory
open EventLoop (Pc LoopAction)

variable {F T : Type}

/-- The loop, with what the callback has asked for and what came to its help. -/
structure Requests (F T : Type) where
  loop : EventLoop.State F T
  requested : List F
  quitRequested : Bool
  /-- The calls of `poll` that have returned. -/
  polls : ℕ
  /-- Another thread has written to the eventfd. -/
  told : Bool
  /-- `quit_` has been stored since the reset. -/
  requit : Bool

def Requests.create : Requests F T := ⟨EventLoop.State.create false, [], false, 0, false, false⟩

section Steps
variable [DecidableEq T]

def after (s : Requests F T) (a : LoopAction F T) : Requests F T :=
  let next := { s with loop := EventLoop.after s.loop a }
  match a, s.loop.pc with
  | .advance _, .poll => { next with polls := s.polls + 1 }
  | .advance _, .resetQuit => { next with requit := false }
  | .selfPush functor, .initCallback => { next with requested := s.requested ++ [functor] }
  | .selfQuit, .initCallback => { next with quitRequested := true, requit := true }
  | .selfQuit, _ | .quit _, _ => { next with requit := true }
  | .wake _, _ | .quitWake _, _ => { next with told := true }
  | _, _ => next

/-- The interleavings are those of the loop. -/
def step (s : Requests F T) (a : LoopAction F T) : Option (Requests F T) :=
  if EventLoop.Enabled s.loop a then some (after s a) else none

theorem step_eq_some {s t : Requests F T} {a : LoopAction F T} :
    step s a = some t ↔ EventLoop.Enabled s.loop a ∧ after s a = t := by
  simp only [step, Option.ite_none_right_eq_some, Option.some.injEq]

end Steps

/-- A wait with the eventfd at zero finds the callback's functors executed, and
there is no second wait after its `quit`. -/
def Honoured (s : Requests F T) : Prop :=
  s.loop.pc = .poll → (s.loop.counter = 0 → s.requested <+: s.loop.executed) ∧
    (s.quitRequested = true → s.polls = 0)

/-- At the first test of `quit_` the callback has queued nothing, or another
thread has written to the eventfd, or `quit_` was stored again. At a later test
the callback has not called `quit`, or `quit_` was stored again. -/
def Helped (s : Requests F T) : LoopAction F T → Prop
  | .advance _ => s.loop.pc = .testQuit →
      (s.polls = 0 → s.requested = [] ∨ s.told = true ∨ s.requit = true) ∧
        (0 < s.polls → s.quitRequested = true → s.requit = true)
  | _ => True

instance [DecidableEq F] (s : Requests F T) : (a : LoopAction F T) → Decidable (Helped s a)
  | .advance _ => inferInstanceAs (Decidable (_ → _))
  | .selfPush _ | .selfWake | .selfQuit | .push _ _ | .wake _ | .quit _ | .quitWake _ | .join _ =>
      isTrue trivial

/-- An iteration is past its wait. -/
def iterating : Pc F → Bool
  | .dispatch _ | .setCalling | .swap | .batch _ | .running _ _ => true
  | _ => false

/-- No iteration has begun. -/
def Fresh (s : EventLoop.State F T) : Prop :=
  iterating s.pc = false ∧ s.callingPendingFunctors = false ∧ s.executed = []

/-- The callback's functors are the first of the queue, and the first swap takes
all of them. Past the reset `quit_` is what was stored since. -/
structure Recorded (s : Requests F T) : Prop where
  order : InOrder s.loop
  front : s.requested <+: s.loop.queued
  callback : s.loop.pc = .initCallback → s.requested = s.loop.queued ∧ s.loop.shared = false
  early : s.loop.pc.beforeReset = true → s.polls = 0
  fresh : s.polls = 0 → Fresh s.loop
  told : s.polls = 0 → (0 < s.loop.counter ↔ s.told = true)
  taken : 0 < s.polls → s.loop.pc.collecting = false →
    s.requested <+: s.loop.executed ++ s.loop.pc.unexecuted
  stored : s.loop.pc.beforeReset = false → s.requit = s.loop.quit

theorem recorded_create : Recorded (Requests.create : Requests F T) where
  order := inOrder_create false
  front := List.prefix_rfl
  callback := fun _ => ⟨rfl, rfl⟩
  early := fun _ => rfl
  fresh := fun _ => ⟨rfl, rfl, rfl⟩
  told := by
    intro _
    simp [Requests.create, EventLoop.State.create]
  taken := fun h => absurd h (Nat.lt_irrefl 0)
  stored := by
    intro h
    cases h

/-! ### The statements of the loop's thread -/

theorem follows_not_initCallback {p q : Pc F} (h : p.Follows q) : q ≠ .initCallback := by
  rintro rfl
  cases h

theorem follows_beforeReset {p q : Pc F} (h : p.Follows q) (hq : q.beforeReset = true) :
    p.beforeReset = true ∧ p.polling = false := by
  cases h <;> first | exact ⟨rfl, rfl⟩ | cases hq

/-- Outside an iteration the statements, waits apart, touch neither the eventfd
nor what iterations change. -/
theorem advance_idle {s : EventLoop.State F T} (hi : iterating s.pc = false)
    (hp : s.pc.polling = false) (ready : Bool) :
    iterating (s.advance ready).pc = false ∧
      (s.advance ready).callingPendingFunctors = s.callingPendingFunctors ∧
      (s.advance ready).executed = s.executed ∧ (s.advance ready).counter = s.counter := by
  unfold EventLoop.State.advance
  cases hpc : s.pc with
  | testQuit => cases hq : s.quit <;> exact ⟨rfl, rfl, rfl, rfl⟩
  | poll => simp [hpc, Pc.polling] at hp
  | dispatch _ | setCalling | swap | batch _ | running _ _ => simp [hpc, iterating] at hi
  | initCallback | publish | setLooping | resetQuit | clearLooping | returned | finished =>
      exact ⟨rfl, rfl, rfl, rfl⟩

/-- The functors executed or swapped out change with the swap alone. -/
theorem advance_taken {s : EventLoop.State F T} {ready : Bool}
    (h : (s.advance ready).pc.collecting = false) :
    (s.advance ready).pendingFunctors = [] ∨ s.pc.collecting = false ∧ s.pc.polling = false ∧
      (s.advance ready).executed ++ (s.advance ready).pc.unexecuted =
        s.executed ++ s.pc.unexecuted := by
  unfold EventLoop.State.advance at h ⊢
  cases hpc : s.pc with
  | testQuit => cases hq : s.quit <;> exact .inr ⟨rfl, rfl, rfl⟩
  | poll => simp [hpc, Pc.collecting] at h
  | dispatch wakeup => cases wakeup <;> simp [hpc, Pc.collecting] at h
  | setCalling => simp [hpc, Pc.collecting] at h
  | swap => exact .inl rfl
  | batch functors => cases functors <;> exact .inr ⟨rfl, rfl, rfl⟩
  | running functor functors => exact .inr ⟨rfl, rfl, by simp [Pc.unexecuted]⟩
  | initCallback | publish | setLooping | resetQuit | clearLooping | returned | finished =>
      exact .inr ⟨rfl, rfl, rfl⟩

section Steps
variable [DecidableEq T]

theorem after_loop (s : Requests F T) (a : LoopAction F T) :
    (after s a).loop = EventLoop.after s.loop a := by
  unfold after
  split <;> rfl

/-- What a statement of the loop's thread does to the record. -/
theorem after_advance (s : Requests F T) (ready : Bool) :
    (after s (.advance ready)).requested = s.requested ∧
      (after s (.advance ready)).quitRequested = s.quitRequested ∧
      (after s (.advance ready)).told = s.told ∧
      (after s (.advance ready)).polls = (if s.loop.pc.polling then s.polls + 1 else s.polls) := by
  unfold after
  cases s.loop.pc <;> exact ⟨rfl, rfl, rfl, rfl⟩

/-- The reset takes back what was stored before; no other statement of the
loop's thread touches `quit_`. -/
theorem after_advance_requit {s : Requests F T} (h : Recorded s) (ready : Bool)
    (hb : (s.loop.advance ready).pc.beforeReset = false) :
    (after s (.advance ready)).requit = (s.loop.advance ready).quit := by
  have hstored := h.stored
  unfold EventLoop.State.advance at hb ⊢
  unfold after
  cases hpc : s.loop.pc with
  | initCallback | publish | setLooping => simp [hpc, Pc.beforeReset] at hb
  | resetQuit => rfl
  | dispatch wakeup =>
      rw [hpc] at hstored
      cases wakeup <;> exact hstored rfl
  | batch functors =>
      rw [hpc] at hstored
      cases functors <;> exact hstored rfl
  | testQuit | poll | setCalling | swap | running functor functors | clearLooping | returned
  | finished =>
      rw [hpc] at hstored
      exact hstored rfl

theorem Recorded.advance {s : Requests F T} (h : Recorded s) (ready : Bool) :
    Recorded (after s (.advance ready)) := by
  obtain ⟨hrequested, -, htold, hpolls⟩ := after_advance s ready
  have hzero (hzero : (if s.loop.pc.polling then s.polls + 1 else s.polls) = 0) :
      s.loop.pc.polling = false ∧ s.polls = 0 := by
    split_ifs at hzero with hp
    exact ⟨eq_false_of_ne_true hp, hzero⟩
  have hloop : (after s (.advance ready)).loop = s.loop.advance ready := after_loop s _
  have hqueued := (EventLoop.advance_sameCalls s.loop ready).queued
  have horder := h.order.advance ready
  constructor
  · rwa [hloop]
  · rw [hrequested, hloop, hqueued]
    exact h.front
  · rw [hloop]
    exact fun hpc => absurd hpc (follows_not_initCallback (EventLoop.advance_follows s.loop ready))
  · rw [hloop, hpolls]
    intro hb
    obtain ⟨hb, hp⟩ := follows_beforeReset (EventLoop.advance_follows s.loop ready) hb
    simpa [hp] using h.early hb
  · rw [hpolls, hloop]
    intro hz
    obtain ⟨hp, hz⟩ := hzero hz
    obtain ⟨hphase, hcalling, hexecuted⟩ := h.fresh hz
    obtain ⟨hphase', hcalling', hexecuted', -⟩ := advance_idle hphase hp ready
    exact ⟨hphase', hcalling'.trans hcalling, hexecuted'.trans hexecuted⟩
  · rw [hpolls, hloop, htold]
    intro hz
    obtain ⟨hp, hz⟩ := hzero hz
    obtain ⟨-, -, -, hcounter⟩ := advance_idle (h.fresh hz).1 hp ready
    rw [hcounter]
    exact h.told hz
  · rw [hrequested, hpolls, hloop]
    intro hpos hc
    rcases advance_taken hc with hempty | ⟨hc, hp, hsame⟩
    · have hall : (s.loop.advance ready).executed ++ (s.loop.advance ready).pc.unexecuted =
          s.loop.queued := by
        rw [← hqueued, ← horder, hempty, List.append_nil]
      exact hall ▸ h.front
    · rw [hsame]
      exact h.taken (by simpa [hp] using hpos) hc
  · rw [hloop]
    exact after_advance_requit h ready

/-! ### The other steps -/

/-- What the callback queues goes to the front of an empty queue that no other
thread has access to. -/
theorem Recorded.selfPush {s : Requests F T} (h : Recorded s) (functor : F) :
    Recorded (after s (.selfPush functor)) := by
  have horder : InOrder (EventLoop.after s.loop (.selfPush functor)) := h.order.emplaceBack functor
  by_cases hpc : s.loop.pc = .initCallback
  · have hafter : after s (.selfPush functor) =
        { s with
          loop := EventLoop.after s.loop (.selfPush functor)
          requested := s.requested ++ [functor] } := by
      unfold after
      rw [hpc]
    obtain ⟨hall, hshared⟩ := h.callback hpc
    have hall : s.requested ++ [functor] = s.loop.queued ++ [functor] := by rw [hall]
    have hzero : s.polls = 0 := h.early (by rw [hpc]; rfl)
    rw [hafter]
    exact ⟨horder, hall ▸ List.prefix_rfl, fun _ => ⟨hall, hshared⟩, h.early, h.fresh, h.told,
      fun hpos => absurd hpos (by simp [hzero]), h.stored⟩
  · have hafter : after s (.selfPush functor) =
        { s with loop := EventLoop.after s.loop (.selfPush functor) } := by
      unfold after
      cases hp : s.loop.pc with
      | initCallback => exact absurd hp hpc
      | publish | setLooping | resetQuit | testQuit | poll | dispatch _ | setCalling | swap
      | batch _ | running _ _ | clearLooping | returned | finished => rfl
    rw [hafter]
    exact ⟨horder, h.front.trans (List.prefix_append _ _), fun hc => absurd hc hpc, h.early,
      h.fresh, h.told, h.taken, h.stored⟩

omit [DecidableEq T] in
theorem Recorded.finishOwn {s : Requests F T} (h : Recorded s) :
    Recorded { s with loop := s.loop.finishOwn } := by
  have horder := h.order.finishOwn
  unfold EventLoop.State.finishOwn at horder ⊢
  cases hown : s.loop.own with
  | none => exact h
  | some index =>
      rw [hown] at horder
      dsimp only at horder ⊢
      split_ifs at horder ⊢ with hcalling
      · have hlate (hz : s.polls = 0) : False := by
          rw [(h.fresh hz).2.1] at hcalling
          cases hcalling
        exact ⟨horder, h.front, h.callback, h.early, h.fresh, fun hz => (hlate hz).elim, h.taken,
          h.stored⟩
      · exact ⟨horder, h.front, h.callback, h.early, h.fresh, h.told, h.taken, h.stored⟩

/-- A stored `quit_` is a later one unless the callback stores it. -/
theorem Recorded.selfQuit {s : Requests F T} (h : Recorded s) :
    Recorded (after s .selfQuit) := by
  unfold after
  cases hpc : s.loop.pc with
  | initCallback =>
      exact ⟨h.order, h.front, h.callback, h.early, h.fresh, h.told, h.taken, fun _ => rfl⟩
  | publish | setLooping | resetQuit | testQuit | poll | dispatch _ | setCalling | swap
  | batch _ | running _ _ | clearLooping | returned | finished =>
      exact ⟨h.order, h.front, h.callback, h.early, h.fresh, h.told, h.taken, fun _ => rfl⟩

/-- Another thread queues once the loop is shared, past the callback. -/
theorem Recorded.push {s : Requests F T} (h : Recorded s) (t : T) (functor : F)
    (hshared : s.loop.shared = true) : Recorded (after s (.push t functor)) := by
  have hpc : s.loop.pc ≠ .initCallback := by
    intro hpc
    rw [(h.callback hpc).2] at hshared
    cases hshared
  exact ⟨h.order.emplaceBack functor, h.front.trans (List.prefix_append _ _),
    fun hc => absurd hc hpc, h.early, h.fresh, h.told, h.taken, h.stored⟩

/-- A thread that writes to the eventfd is taken down. -/
theorem Recorded.wake {s : Requests F T} (h : Recorded s) (t : T)
    (hp : (s.loop.threads t).hasPushed = true) : Recorded (after s (.wake t)) := by
  have horder := h.order.finishPush t
  have hafter : after s (.wake t) = { s with loop := s.loop.finishPush t, told := true } := rfl
  rw [hafter]
  unfold EventLoop.State.finishPush at horder ⊢
  cases ht : s.loop.threads t with
  | pushed index =>
      exact ⟨h.order, h.front, h.callback, h.early, h.fresh,
        fun _ => iff_of_true (Nat.succ_pos _) rfl, h.taken, h.stored⟩
  | idle | quitStored | joined => simp [ht, EventLoop.Caller.hasPushed] at hp

theorem recorded_step (s : Requests F T) (a : LoopAction F T) (t : Requests F T) (h : Recorded s)
    (ht : step s a = some t) : Recorded t := by
  obtain ⟨he, rfl⟩ := step_eq_some.mp ht
  cases a with
  | advance ready => exact h.advance ready
  | selfPush functor => exact h.selfPush functor
  | selfWake => exact h.finishOwn
  | selfQuit => exact h.selfQuit
  | push u functor => exact h.push u functor he.1
  | wake u => exact h.wake u he.2
  | quit u =>
      exact ⟨h.order, h.front, h.callback, h.early, h.fresh, h.told, h.taken, fun _ => rfl⟩
  | quitWake u =>
      exact ⟨h.order, h.front, h.callback, h.early, h.fresh,
        fun _ => iff_of_true (Nat.succ_pos _) rfl, h.taken, h.stored⟩
  | join u =>
      exact ⟨h.order, h.front, h.callback, h.early, h.fresh, h.told, h.taken, h.stored⟩

/-! ### Waits -/

/-- Helped or not, a wait that begins has found `quit_` down at the test. -/
theorem advance_waits {s : Requests F T} {ready : Bool} (h : Recorded s)
    (hpc : (after s (.advance ready)).loop.pc = .poll) :
    s.loop.pc = .testQuit ∧ s.requit = false := by
  rw [after_loop] at hpc
  obtain ⟨htest, hquit⟩ := QuitRequest.advance_polls hpc
  refine ⟨htest, ?_⟩
  rw [h.stored (by rw [htest]; rfl), hquit]

theorem Honoured.advance {s : Requests F T} {ready : Bool} (hr : Recorded s)
    (hc : Helped s (.advance ready)) : Honoured (after s (.advance ready)) := by
  intro hpc
  obtain ⟨htest, hrequit⟩ := advance_waits hr hpc
  obtain ⟨hfirst, hlater⟩ := hc htest
  obtain ⟨hrequested, hquitRequested, -, hpolls⟩ := after_advance s ready
  have hp : s.loop.pc.polling = false := by rw [htest]; rfl
  have hloop : (after s (.advance ready)).loop.executed = s.loop.executed ∧
      (after s (.advance ready)).loop.counter = s.loop.counter := by
    rw [after_loop]
    exact (advance_idle (by rw [htest]; rfl) hp ready).2.2
  rw [if_neg (by simp [hp])] at hpolls
  rw [hrequested, hquitRequested, hpolls, hloop.1, hloop.2]
  constructor
  · intro hcounter
    rcases Nat.eq_zero_or_pos s.polls with hz | hpos
    · rcases hfirst hz with hnone | htold | hagain
      · exact hnone ▸ List.nil_prefix
      · have hup := (hr.told hz).mpr htold
        exact absurd hcounter (Nat.ne_of_gt hup)
      · simp [hrequit] at hagain
    · have htaken := hr.taken hpos (by rw [htest]; rfl)
      have hrest : s.loop.pc.unexecuted = [] := by rw [htest]; rfl
      rwa [hrest, List.append_nil] at htaken
  · intro hquit
    by_contra hne
    have hagain := hlater (Nat.pos_of_ne_zero hne) hquit
    simp [hrequit] at hagain

/-- While the loop's thread waits, no other thread takes anything back. -/
theorem honoured_step (s : Requests F T) (a : LoopAction F T) (t : Requests F T)
    (h : Recorded s ∧ Honoured s) (hc : Helped s a) (ht : step s a = some t) :
    Recorded t ∧ Honoured t := by
  refine ⟨recorded_step s a t h.1 ht, ?_⟩
  obtain ⟨he, rfl⟩ := step_eq_some.mp ht
  have hh := h.2
  cases a with
  | advance ready => exact Honoured.advance h.1 hc
  | selfPush functor | selfQuit =>
      intro hpc
      rw [after_loop] at hpc
      have huser := he.2
      simp [show s.loop.pc = .poll from hpc, Pc.inUserCode] at huser
  | selfWake =>
      have hafter : after s .selfWake = { s with loop := s.loop.finishOwn } := rfl
      rw [hafter]
      unfold EventLoop.State.finishOwn
      cases s.loop.own with
      | none => exact hh
      | some index =>
          dsimp only
          split_ifs
          · exact fun hpc => ⟨fun hz => absurd hz (Nat.succ_ne_zero _), (hh hpc).2⟩
          · exact hh
  | wake u =>
      have hafter : after s (.wake u) = { s with loop := s.loop.finishPush u, told := true } := rfl
      rw [hafter]
      unfold EventLoop.State.finishPush
      cases s.loop.threads u with
      | pushed index =>
          exact fun hpc => ⟨fun hz => absurd hz (Nat.succ_ne_zero _), (hh hpc).2⟩
      | idle | quitStored | joined => exact hh
  | quitWake u => exact fun hpc => ⟨fun hz => absurd hz (Nat.succ_ne_zero _), (hh hpc).2⟩
  | push u functor | quit u | join u => exact hh

/-- A test that starts a wait which honours the callback was helped. -/
theorem helped_of_honoured (s : Requests F T) (a : LoopAction F T) (t : Requests F T)
    (h : Recorded s ∧ Honoured s) (ht : step s a = some t) (hh : Honoured t) : Helped s a := by
  obtain ⟨he, rfl⟩ := step_eq_some.mp ht
  obtain ⟨hr, -⟩ := h
  cases a with
  | advance ready =>
      intro htest
      have hp : s.loop.pc.polling = false := by rw [htest]; rfl
      have hi : iterating s.loop.pc = false := by rw [htest]; rfl
      have hstored := hr.stored (by rw [htest]; rfl)
      cases hquit : s.loop.quit with
      | true =>
          rw [hquit] at hstored
          exact ⟨fun _ => .inr (.inr hstored), fun _ _ => hstored⟩
      | false =>
          have hpc : (after s (.advance ready)).loop.pc = .poll := by
            rw [after_loop]
            simp [EventLoop.after, EventLoop.State.advance, htest, hquit]
          obtain ⟨hqueue, hstop⟩ := hh hpc
          obtain ⟨hrequested, hquitRequested, -, hpolls⟩ := after_advance s ready
          obtain ⟨-, -, hexecuted, hcounter⟩ := advance_idle hi hp ready
          rw [if_neg (by simp [hp])] at hpolls
          rw [hquitRequested, hpolls] at hstop
          rw [hrequested, after_loop] at hqueue
          constructor
          · intro hz
            rcases Nat.eq_zero_or_pos s.loop.counter with hc | hc
            · have hprefix := hqueue (hcounter.trans hc)
              have hnone : (EventLoop.after s.loop (.advance ready)).executed = [] :=
                hexecuted.trans (hr.fresh hz).2.2
              rw [hnone] at hprefix
              exact .inl (List.prefix_nil.mp hprefix)
            · exact .inr (.inl ((hr.told hz).mp hc))
          · intro hpos hq
            exact absurd (hstop hq) (Nat.ne_of_gt hpos)
  | selfPush _ | selfWake | selfQuit | push _ _ | wake _ | quit _ | quitWake _ | join _ => trivial

/-- In every interleaving the requests of the callback are honoured exactly if
each test of `quit_` that matters to them was helped by another thread. -/
theorem requests_honoured_iff {actions : List (LoopAction F T)} {s : Requests F T}
    (h : run step Requests.create actions = some s) :
    Throughout step Honoured Requests.create actions ↔
      Meets step Helped Requests.create actions := by
  have hstart : Recorded (Requests.create : Requests F T) ∧
      Honoured (Requests.create : Requests F T) := by
    refine ⟨recorded_create, fun hpc => ?_⟩
    cases hpc
  exact throughout_iff_meets honoured_step helped_of_honoured (fun _ => And.right) hstart h

end Steps

instance [DecidableEq F] (s : Requests F T) : Decidable (Honoured s) :=
  inferInstanceAs (Decidable (_ → _ ∧ _))

/-- Statements of the loop's thread, with no event for a wait. -/
def advances (k : ℕ) : List (LoopAction ℕ Bool) := List.replicate k (.advance false)

/-- The callback queues a functor and quits. The owner of the published loop
queues another functor before the first test, and quits as well after it. -/
def repaired : List (LoopAction ℕ Bool) :=
  [.selfPush 7, .selfWake, .selfQuit] ++ advances 2 ++ [.push true 8, .wake true] ++
    advances 3 ++ [.advance true, .quit true, .quitWake true] ++ advances 11

theorem requests_honoured_iff_repaired :
    Throughout step Honoured Requests.create repaired := by
  obtain ⟨s, hs, -⟩ : ∃ s ∈ run step Requests.create repaired,
      s.loop.pc = .returned ∧ s.loop.executed = [7, 8] := by decide +kernel
  exact (requests_honoured_iff hs).mpr (by decide +kernel)

/-- The callback queues a functor, and the loop waits. -/
def queuedBeforehand : List (LoopAction ℕ Bool) :=
  [.selfPush 7, .selfWake] ++ advances 5

/-- The callback quits, and the loop waits twice. -/
def quitBeforehand : List (LoopAction ℕ Bool) := .selfQuit :: advances 11

theorem requests_beforehand_forgotten :
    (∃ s ∈ run step Requests.create queuedBeforehand, s.loop.pc = .poll ∧ s.loop.counter = 0 ∧
      s.requested = [7] ∧ s.loop.executed = [] ∧ ¬ Honoured s) ∧
    ∃ s ∈ run step Requests.create quitBeforehand, s.loop.pc = .poll ∧
      s.quitRequested = true ∧ s.polls = 1 ∧ ¬ Honoured s := by
  decide +kernel

end Netmux.CallbackRequests
