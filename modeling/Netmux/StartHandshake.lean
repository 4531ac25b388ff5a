import Mathlib.Data.Int.Notation
import Mathlib.Data.List.Infix
import Netmux.ThreadHandshake

/-!
# Starting a loop's thread

`startLoop` waits for `loop_` under the lock and copies it, and then returns
`loop_` read once more, without the lock, and not the copy. A loop that ends
early is cleared from `loop_` in between, and null is returned; one that ends
before `startLoop` has the lock is waited for in vain. Functors of the callback
and threads that it hands the loop to may end it that early.

In every other interleaving `startLoop` returns the address of its thread's loop,
and the pool stores these addresses.
-/
namespace Netmux.StartHandshake
open ActionRuns ThreadHandshake
open EventLoop (Pc LoopAction)

variable {F T A : Type}

/-- Steps of `startLoop`, notified where it waits, and of the loop's thread up to
the publication. -/
def scheduled : ThreadAction F T → Bool
  | .onLoop (.advance _) | .onLoop .selfWake | .lock | .wake | .read => true
  | _ => false

/-- `threadFunc` clears `loop_` only once `startLoop` has returned. -/
def ClearsAfterReturn (s : EventLoopThread F T A) : ThreadAction F T → Prop
  | .clear => s.owner.hasStarted = true
  | _ => True

instance (s : EventLoopThread F T A) : (a : ThreadAction F T) → Decidable (ClearsAfterReturn s a)
  | .clear => inferInstanceAs (Decidable (_ = _))
  | .onLoop _ | .handOut | .lock | .wake | .spurious | .read | .test | .call | .store | .wakeup
  | .join => isTrue trivial

section Thread
variable [DecidableEq T] [DecidableEq A]

/-- `startLoop` and the loop's thread come, in `k` steps of their own at most and
without a spurious wakeup, to the point where `startLoop` has returned the
address. -/
def CanReturn (k : ℕ) (s : EventLoopThread F T A) : Prop :=
  ∃ actions t, actions.length ≤ k ∧ (∀ a ∈ actions, scheduled a = true) ∧
    run step s actions = some t ∧ t.result = some (some t.address)

/-- What `startLoop` has returned is the address. Until then it is at most five
steps away: the end of a `queueInLoop` of the callback and of the callback, the
publication, the end of the wait and the last read. -/
def Handed (s : EventLoopThread F T A) : Prop :=
  (∀ loop, s.result = some loop → loop = some s.address) ∧ (s.result = none → CanReturn 5 s)

/-! ### The way to the return -/

theorem canReturn_of_step {s t : EventLoopThread F T A} {a : ThreadAction F T} {k : ℕ}
    (ha : scheduled a = true) (h : step s a = some t) (ht : CanReturn k t) :
    CanReturn (k + 1) s := by
  obtain ⟨actions, u, hlength, hactions, hu, hresult⟩ := ht
  exact ⟨a :: actions, u, Nat.succ_le_succ hlength, List.forall_mem_cons.mpr ⟨ha, hactions⟩,
    run_cons_eq_some.mpr ⟨t, h, hu⟩, hresult⟩

theorem CanReturn.mono {s : EventLoopThread F T A} {j k : ℕ} (h : CanReturn j s) (hjk : j ≤ k) :
    CanReturn k s := by
  obtain ⟨actions, t, hlength, hrest⟩ := h
  exact ⟨actions, t, hlength.trans hjk, hrest⟩

/-- The last read finds what the copy has. -/
theorem canReturn_copied {s : EventLoopThread F T A} (h : Recorded s) (hc : s.cleared = false)
    (ho : s.owner.hasCopied = true) : CanReturn 1 s := by
  have hpast : s.owner.pastWait = true := Owner.pastWait_of_hasCopied ho
  have hloop := h.loop_eq (h.published hpast) hc
  refine ⟨[.read], s.returnLoop, Nat.le_refl 1, by simp [scheduled], ?_, ?_⟩
  · exact run_cons_eq_some.mpr ⟨s.returnLoop, step_eq_some.mpr ⟨ho, rfl⟩, rfl⟩
  · simp [EventLoopThread.returnLoop, hloop]

/-- Once the loop is published a wait is over, and the others find it so. -/
theorem canReturn_published {s : EventLoopThread F T A} (h : Recorded s)
    (hc : s.cleared = false) (ho : s.owner.hasStarted = false)
    (hp : unpublished s.eventLoop.pc = false) : CanReturn 2 s := by
  have hloop := h.loop_eq hp hc
  cases howner : s.owner with
  | starting =>
      have hstep : step s .lock = some s.testLoop := step_eq_some.mpr ⟨howner, rfl⟩
      refine canReturn_of_step rfl hstep (canReturn_copied (recorded_step _ _ _ h hstep) hc ?_)
      simp [EventLoopThread.testLoop, hloop, Owner.hasCopied]
  | waiting =>
      have hnotified := h.heard howner (by simp [hloop])
      have hstep : step s .wake = some { s with notified := false }.testLoop :=
        step_eq_some.mpr ⟨⟨howner, hnotified⟩, rfl⟩
      refine canReturn_of_step rfl hstep (canReturn_copied (recorded_step _ _ _ h hstep) hc ?_)
      simp [EventLoopThread.testLoop, hloop, Owner.hasCopied]
  | copied loop => exact (canReturn_copied h hc (by rw [howner]; rfl)).mono (by decide)
  | started | tested | calling _ | quitStored | joining | destroyed | misused =>
      simp [howner, Owner.hasStarted] at ho

omit [DecidableEq T] [DecidableEq A] in
/-- `threadFunc` may go on up to its first critical section. -/
theorem enabled_unpublished {s : EventLoopThread F T A}
    (hp : unpublished s.eventLoop.pc = true) (hown : s.eventLoop.own = none) :
    Enabled s (.onLoop (.advance false)) := by
  refine ⟨⟨hown, ?_, fun _ hready => by cases hready⟩, fun hreturned => ?_⟩
  · cases hpc : s.eventLoop.pc <;> simp [hpc, unpublished] at hp <;> rfl
  · cases hpc : s.eventLoop.pc <;> simp [hpc, unpublished, Pc.hasReturned] at hp hreturned

/-- The first critical section of `threadFunc` is next. -/
theorem canReturn_publish {s : EventLoopThread F T A} (h : Recorded s) (hc : s.cleared = false)
    (ho : s.owner.hasStarted = false) (hpc : s.eventLoop.pc = .publish)
    (hown : s.eventLoop.own = none) : CanReturn 3 s := by
  have hstep : step s (.onLoop (.advance false)) =
      some { s with eventLoop := s.eventLoop.advance false }.publish :=
    step_eq_some.mpr ⟨enabled_unpublished (by rw [hpc]; rfl) hown, onLoop_publish hpc false⟩
  have hnext : (s.eventLoop.advance false).pc = .setLooping := by
    simp [EventLoop.State.advance, hpc]
  refine canReturn_of_step rfl hstep
    (canReturn_published (recorded_step _ _ _ h hstep) hc ho ?_)
  simp [EventLoopThread.publish, hnext, unpublished]

theorem canReturn_unpublished {s : EventLoopThread F T A} (h : Recorded s)
    (hc : s.cleared = false) (ho : s.owner.hasStarted = false)
    (hp : unpublished s.eventLoop.pc = true) (hown : s.eventLoop.own = none) :
    CanReturn 4 s := by
  cases hpc : s.eventLoop.pc with
  | publish => exact (canReturn_publish h hc ho hpc hown).mono (by decide)
  | initCallback =>
      have hne : s.eventLoop.pc ≠ .publish := by simp [hpc]
      have hstep : step s (.onLoop (.advance false)) =
          some { s with eventLoop := s.eventLoop.advance false } :=
        step_eq_some.mpr ⟨enabled_unpublished hp hown, onLoop_advance hne false⟩
      have hsame := EventLoop.advance_sameCalls s.eventLoop false
      refine canReturn_of_step rfl hstep
        (canReturn_publish (recorded_step _ _ _ h hstep) hc ho ?_ (hsame.own.trans hown))
      simp [EventLoop.State.advance, hpc]
  | setLooping | resetQuit | testQuit | poll | dispatch _ | setCalling | swap | batch _
  | running _ _ | clearLooping | returned | finished => simp [hpc, unpublished] at hp

/-- While `loop_` has not been cleared `startLoop` can return the address. -/
theorem canReturn {s : EventLoopThread F T A} (h : Recorded s) (hc : s.cleared = false)
    (ho : s.owner.hasStarted = false) : CanReturn 5 s := by
  cases hp : unpublished s.eventLoop.pc with
  | false => exact (canReturn_published h hc ho hp).mono (by decide)
  | true =>
      cases hown : s.eventLoop.own with
      | none => exact (canReturn_unpublished h hc ho hp hown).mono (by decide)
      | some index =>
          have hstep : step s (.onLoop .selfWake) =
              some { s with eventLoop := s.eventLoop.finishOwn } := by
            refine step_eq_some.mpr ⟨⟨?_, trivial⟩, rfl⟩
            simp [EventLoop.Enabled, hown]
          refine canReturn_of_step rfl hstep (canReturn_unpublished
            (recorded_step _ _ _ h hstep) hc ho ?_ (finishOwn_own s.eventLoop))
          exact (congrArg unpublished (finishOwn_pc s.eventLoop)).trans hp

/-! ### Early ends -/

/-- Once `loop_` is cleared `startLoop` waits for ever or reads null. -/
theorem not_canReturn {s : EventLoopThread F T A} (h : Recorded s) (hc : s.cleared = true)
    (hr : s.result = none) (k : ℕ) : ¬ CanReturn k s := by
  rintro ⟨actions, t, -, -, ht, hresult⟩
  have hkeep : ∀ (s : EventLoopThread F T A) a t,
      (Recorded s ∧ s.cleared = true ∧ ∀ loop, s.result ≠ some (some loop)) → step s a = some t →
      Recorded t ∧ t.cleared = true ∧ ∀ loop, t.result ≠ some (some loop) := by
    rintro s a t ⟨h, hc, hr⟩ ht
    have hrecord := recorded_step s a t h ht
    obtain ⟨-, rfl⟩ := step_eq_some.mp ht
    have hframe := after_frame s a
    cases a with
    | read =>
        refine ⟨hrecord, hc, fun loop hloop => ?_⟩
        have hnone : (after s .read).result = some none := congrArg some (h.null.mpr (.inr hc))
        rw [hnone] at hloop
        cases hloop
    | clear => exact ⟨hrecord, rfl, hr⟩
    | onLoop _ | handOut | lock | wake | spurious | test | call | store | wakeup | join =>
        refine ⟨hrecord, (hframe.cleared (by simp)).trans hc, fun loop hloop => ?_⟩
        exact hr loop ((hframe.result (by simp)).symm.trans hloop)
  have hlast := run_preserves hkeep ⟨h, hc, by simp [hr]⟩ ht
  exact hlast.2.2 t.address hresult

/-- A loop cleared from `loop_` has been handed to the owner before. -/
structure Good (s : EventLoopThread F T A) : Prop where
  record : Recorded s
  kept : s.cleared = true → s.owner.hasStarted = true
  handed : ∀ loop, s.result = some loop → loop = some s.address

omit [DecidableEq T] [DecidableEq A] in
theorem good_create (address : A) :
    Good (EventLoopThread.create address : EventLoopThread F T A) where
  record := recorded_create address
  kept := by
    intro h
    cases h
  handed := by
    intro loop h
    cases h

theorem Good.canHand {s : EventLoopThread F T A} (h : Good s) : Handed s := by
  refine ⟨h.handed, fun hr => ?_⟩
  have ho : s.owner.hasStarted = false := by rw [← h.record.result, hr]; rfl
  exact canReturn h.record (eq_false_of_ne_true fun hc => by simp [h.kept hc] at ho) ho

theorem good_step (s : EventLoopThread F T A) (a : ThreadAction F T) (t : EventLoopThread F T A)
    (h : Good s) (hc : ClearsAfterReturn s a) (ht : step s a = some t) : Good t := by
  have hrecord := recorded_step s a t h.record ht
  have hstays := hasStarted_step h.record ht
  obtain ⟨he, rfl⟩ := step_eq_some.mp ht
  have hframe := after_frame s a
  refine ⟨hrecord, fun hcleared => ?_, fun loop hloop => ?_⟩
  · cases a with
    | clear => exact hc
    | onLoop _ | handOut | lock | wake | spurious | read | test | call | store | wakeup | join =>
        exact hstays (h.kept ((hframe.cleared (by simp)).symm.trans hcleared))
  · rw [hframe.address]
    cases a with
    | read =>
        have hpublished := h.record.published (Owner.pastWait_of_hasCopied he)
        have hopen : s.cleared = false := by
          by_contra hs
          have hcopied := Owner.hasStarted_of_hasCopied he
          rw [h.kept (eq_true_of_ne_false hs)] at hcopied
          cases hcopied
        rw [← h.record.loop_eq hpublished hopen]
        exact (Option.some.inj hloop).symm
    | onLoop _ | handOut | clear | lock | wake | spurious | test | call | store | wakeup | join =>
        exact h.handed loop ((hframe.result (by simp)).symm.trans hloop)

/-- Where `loop_` is cleared before `startLoop` has returned, it cannot return
the address any more. -/
theorem clearsAfterReturn_of_handed (s : EventLoopThread F T A) (a : ThreadAction F T)
    (t : EventLoopThread F T A) (h : Good s) (ht : step s a = some t) (hh : Handed t) :
    ClearsAfterReturn s a := by
  have hrecord := recorded_step s a t h.record ht
  obtain ⟨-, rfl⟩ := step_eq_some.mp ht
  cases a with
  | clear =>
      by_contra ho
      have hr : s.result = none := by
        have hsome := h.record.result
        rw [eq_false_of_ne_true ho] at hsome
        exact Option.not_isSome_iff_eq_none.mp (by simp [hsome])
      exact not_canReturn hrecord rfl hr 5 (hh.2 hr)
  | onLoop _ | handOut | lock | wake | spurious | read | test | call | store | wakeup | join =>
      trivial

/-- In every interleaving of one thread with its owner and others, `startLoop`
hands the address out exactly if `loop_` is not cleared before. -/
theorem startLoop_hands_iff (address : A) {actions : List (ThreadAction F T)}
    {s : EventLoopThread F T A}
    (h : run step (EventLoopThread.create address) actions = some s) :
    Throughout step Handed (EventLoopThread.create address) actions ↔
      Meets step ClearsAfterReturn (EventLoopThread.create address) actions :=
  throughout_iff_meets good_step clearsAfterReturn_of_handed (fun _ => Good.canHand)
    (good_create address) h

end Thread

/-! ### The pool -/

/-- `EventLoopThreadPool` within `start`, which constructs a thread, starts it and
stores what `startLoop` returns before it constructs the next one. -/
structure Pool (F T A : Type) where
  threadNum : ℤ
  threads : List (EventLoopThread F T A)
  loops : List (Option A)

inductive PoolAction (F T A : Type) where
  | construct (address : A)
  | onThread (i : ℕ) (a : ThreadAction F T)
  | pushBack

def Pool.create (threadNum : ℤ) : Pool F T A := ⟨threadNum, [], []⟩

/-- The destructors of the threads come after `start`. -/
def inDestructor : ThreadAction F T → Bool
  | .test | .call | .store | .wakeup | .join => true
  | _ => false

section Pool
variable [DecidableEq T] [DecidableEq A]

def poolStep (p : Pool F T A) : PoolAction F T A → Option (Pool F T A)
  | .construct address =>
      if p.threads.length = p.loops.length ∧ (p.threads.length : ℤ) < p.threadNum then
        some { p with threads := p.threads ++ [EventLoopThread.create address] }
      else none
  | .onThread i a =>
      if inDestructor a = false then do
        let thread ← p.threads[i]?
        let next ← step thread a
        return { p with threads := p.threads.set i next }
      else none
  | .pushBack => do
      let thread ← p.threads[p.loops.length]?
      let loop ← thread.result
      return { p with loops := p.loops ++ [loop] }

/-- What `loops_` is to hold, and the null pointer it is not to hold. -/
structure Stored (p : Pool F T A) : Prop where
  handed : ∀ thread ∈ p.threads, Handed thread
  addresses : p.loops <+: p.threads.map fun thread => some thread.address
  notNull : none ∉ p.loops

def AllClearAfterReturn (p : Pool F T A) : PoolAction F T A → Prop
  | .onThread i a => ∀ thread ∈ p.threads[i]?, ClearsAfterReturn thread a
  | _ => True

instance (p : Pool F T A) : (a : PoolAction F T A) → Decidable (AllClearAfterReturn p a)
  | .onThread i a =>
      inferInstanceAs (Decidable (∀ thread ∈ p.threads[i]?, ClearsAfterReturn thread a))
  | .construct _ | .pushBack => isTrue trivial

structure PoolGood (p : Pool F T A) : Prop where
  good : ∀ thread ∈ p.threads, Good thread
  addresses : p.loops <+: p.threads.map fun thread => some thread.address

theorem PoolGood.stored {p : Pool F T A} (h : PoolGood p) : Stored p := by
  refine ⟨fun thread ht => (h.good thread ht).canHand, h.addresses, fun hnull => ?_⟩
  obtain ⟨thread, -, ht⟩ := List.mem_map.mp (h.addresses.subset hnull)
  cases ht

theorem poolStep_onThread {p q : Pool F T A} {i : ℕ} {a : ThreadAction F T}
    (h : poolStep p (.onThread i a) = some q) :
    ∃ thread next, p.threads[i]? = some thread ∧ step thread a = some next ∧
      q = { p with threads := p.threads.set i next } := by
  simp only [poolStep, Option.ite_none_right_eq_some, Option.bind_eq_bind,
    Option.bind_eq_some_iff, Option.pure_def, Option.some.injEq] at h
  obtain ⟨-, thread, ht, next, hn, rfl⟩ := h
  exact ⟨thread, next, ht, hn, rfl⟩

theorem poolStep_pushBack {p q : Pool F T A} (h : poolStep p .pushBack = some q) :
    ∃ thread loop, p.threads[p.loops.length]? = some thread ∧ thread.result = some loop ∧
      q = { p with loops := p.loops ++ [loop] } := by
  simp only [poolStep, Option.bind_eq_bind, Option.bind_eq_some_iff, Option.pure_def,
    Option.some.injEq] at h
  obtain ⟨thread, ht, loop, hl, rfl⟩ := h
  exact ⟨thread, loop, ht, hl, rfl⟩

theorem poolStep_construct {p q : Pool F T A} {address : A}
    (h : poolStep p (.construct address) = some q) :
    q = { p with threads := p.threads ++ [EventLoopThread.create address] } := by
  simp only [poolStep, Option.ite_none_right_eq_some, Option.some.injEq] at h
  exact h.2.symm

omit [DecidableEq T] [DecidableEq A] in
/-- A thread's step changes no address. -/
theorem addresses_set {threads : List (EventLoopThread F T A)} {i : ℕ}
    {thread next : EventLoopThread F T A} (hi : threads[i]? = some thread)
    (ha : next.address = thread.address) :
    (threads.set i next).map (fun thread => some thread.address) =
      threads.map fun thread => some thread.address := by
  obtain ⟨hlt, hget⟩ := List.getElem?_eq_some_iff.mp hi
  have hmap : i < (threads.map fun thread => some thread.address).length := by
    rwa [List.length_map]
  have hsame : some next.address = (threads.map fun thread => some thread.address)[i] := by
    rw [List.getElem_map, hget, ha]
  rw [List.map_set, hsame, List.set_getElem_self]

theorem poolGood_step (p : Pool F T A) (a : PoolAction F T A) (q : Pool F T A) (h : PoolGood p)
    (hc : AllClearAfterReturn p a) (ht : poolStep p a = some q) : PoolGood q := by
  cases a with
  | construct address =>
      obtain rfl := poolStep_construct ht
      refine ⟨fun thread hthread => ?_, ?_⟩
      · rcases List.mem_append.mp hthread with hold | hnew
        · exact h.good thread hold
        · rw [List.mem_singleton.mp hnew]
          exact good_create address
      · rw [List.map_append]
        exact h.addresses.trans (List.prefix_append _ _)
  | onThread i a =>
      obtain ⟨thread, next, hi, hstep, rfl⟩ := poolStep_onThread ht
      have hgood := good_step thread a next (h.good thread (List.mem_of_getElem? hi))
        (hc thread hi) hstep
      have haddress : next.address = thread.address := by
        obtain ⟨-, rfl⟩ := step_eq_some.mp hstep
        exact (after_frame thread a).address
      refine ⟨fun other hother => ?_, ?_⟩
      · rcases List.mem_or_eq_of_mem_set hother with hold | rfl
        · exact h.good other hold
        · exact hgood
      · rw [addresses_set hi haddress]
        exact h.addresses
  | pushBack =>
      obtain ⟨thread, loop, hi, hresult, rfl⟩ := poolStep_pushBack ht
      refine ⟨h.good, ?_⟩
      have hloop := (h.good thread (List.mem_of_getElem? hi)).handed loop hresult
      obtain ⟨rest, hrest⟩ := h.addresses
      have hnext : (p.threads.map fun thread => some thread.address)[p.loops.length]? =
          some loop := by
        rw [List.getElem?_map, hi, hloop]
        rfl
      rw [← hrest, List.getElem?_append_right (Nat.le_refl _), Nat.sub_self] at hnext
      cases rest with
      | nil => cases hnext
      | cons first rest =>
          obtain rfl : first = loop := Option.some.inj hnext
          exact ⟨rest, by rw [← hrest, List.append_assoc]; rfl⟩

theorem allClearAfterReturn_of_stored (p : Pool F T A) (a : PoolAction F T A) (q : Pool F T A)
    (h : PoolGood p) (ht : poolStep p a = some q) (hs : Stored q) : AllClearAfterReturn p a := by
  cases a with
  | onThread i a =>
      obtain ⟨thread, next, hi, hstep, rfl⟩ := poolStep_onThread ht
      intro other hother
      obtain rfl : thread = other := Option.some.inj (hi.symm.trans hother)
      have hlt := (List.getElem?_eq_some_iff.mp hi).1
      have hhanded := hs.handed next (List.mem_set hlt next)
      exact clearsAfterReturn_of_handed thread a next (h.good thread (List.mem_of_getElem? hi))
        hstep hhanded
  | construct _ | pushBack => trivial

/-- In every interleaving of `start` with the threads it has started and others,
every `startLoop` hands out the address of its loop and `loops_` holds these, and
no null pointer, exactly if no thread clears its `loop_` before its `startLoop`
has returned. -/
theorem start_stores_iff (threadNum : ℤ) {actions : List (PoolAction F T A)} {p : Pool F T A}
    (h : run poolStep (Pool.create threadNum) actions = some p) :
    Throughout poolStep Stored (Pool.create threadNum) actions ↔
      Meets poolStep AllClearAfterReturn (Pool.create threadNum) actions := by
  have hstart : PoolGood (Pool.create threadNum : Pool F T A) :=
    ⟨fun _ hthread => absurd hthread List.not_mem_nil, List.nil_prefix⟩
  exact throughout_iff_meets poolGood_step allClearAfterReturn_of_stored
    (fun _ => PoolGood.stored) hstart h

end Pool

/-- Steps of one thread of a pool. -/
def ofThread (i : ℕ) (actions : List (ThreadAction ℕ Bool)) : List (PoolAction ℕ Bool ℕ) :=
  actions.map (.onThread i)

/-- Two threads are started. The first one's owner has to wait, and its loop is
quit and cleared while the second is started. -/
def startedInTurn : List (PoolAction ℕ Bool ℕ) :=
  .construct 100 ::
    ofThread 0 [.lock, .onLoop (.advance false), .spurious, .onLoop (.advance false), .wake,
      .read] ++
    [.pushBack, .construct 200] ++
    ofThread 0 [.onLoop (.advance false), .onLoop (.advance false), .onLoop (.quit true),
      .onLoop (.quitWake true), .onLoop (.advance false), .onLoop (.advance false), .clear] ++
    ofThread 1 [.onLoop (.advance false), .onLoop (.advance false), .lock, .read] ++
    [.pushBack]

theorem start_stores_iff_inTurn :
    Throughout poolStep Stored (Pool.create 2) startedInTurn := by
  obtain ⟨p, hp, -⟩ : ∃ p ∈ run poolStep (Pool.create 2) startedInTurn,
      p.loops = [some 100, some 200] := by decide +kernel
  exact (start_stores_iff 2 hp).mpr (by decide +kernel)

/-- A thread that the callback hands the loop to quits it once it runs. -/
def quitEarly : List (ThreadAction ℕ Bool) :=
  [.onLoop (.advance false), .onLoop (.advance false), .onLoop (.quit true),
    .onLoop (.quitWake true), .onLoop (.advance false), .onLoop (.advance false), .clear]

/-- The loop ends between the copy and the last read of `startLoop`. -/
def clearedBeforeRead : List (ThreadAction ℕ Bool) :=
  [.handOut, .onLoop (.advance false), .onLoop (.advance false), .lock] ++ quitEarly ++ [.read]

/-- The loop ends before `startLoop` has the lock. -/
def clearedBeforeLock : List (ThreadAction ℕ Bool) :=
  [.handOut, .onLoop (.advance false), .onLoop (.advance false)] ++ quitEarly ++ [.lock]

theorem start_stores_null :
    (∃ p ∈ run poolStep (Pool.create 1 : Pool ℕ Bool ℕ)
        (.construct 100 :: ofThread 0 clearedBeforeRead ++ [.pushBack]),
      p.loops = [none] ∧ ¬ Stored p) ∧
    ∃ s ∈ run step (EventLoopThread.create 100 : EventLoopThread ℕ Bool ℕ) clearedBeforeLock,
      s.owner = .waiting ∧ s.result = none ∧ ¬ Handed s := by
  constructor
  · obtain ⟨p, hp, hloops⟩ : ∃ p ∈ run poolStep (Pool.create 1 : Pool ℕ Bool ℕ)
        (.construct 100 :: ofThread 0 clearedBeforeRead ++ [.pushBack]),
        p.loops = [none] := by decide +kernel
    refine ⟨p, hp, hloops, fun hstored => hstored.notNull ?_⟩
    rw [hloops]
    exact List.mem_singleton_self none
  · obtain ⟨s, hs, howner, hresult, hcleared⟩ : ∃ s ∈ run step
        (EventLoopThread.create 100 : EventLoopThread ℕ Bool ℕ) clearedBeforeLock,
        s.owner = .waiting ∧ s.result = none ∧ s.cleared = true := by decide +kernel
    have hrecord : Recorded s := run_preserves recorded_step (recorded_create 100) hs
    refine ⟨s, hs, howner, hresult, fun hhanded => ?_⟩
    exact not_canReturn hrecord hcleared hresult 5 (hhanded.2 hresult)

end Netmux.StartHandshake
