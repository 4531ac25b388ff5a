import Netmux.ActionRuns
import Mathlib.Algebra.GroupWithZero.Nat
import Mathlib.Data.List.Basic
import Mathlib.Data.Int.Notation
import Mathlib.Data.Nat.Notation
import Mathlib.Logic.Function.Basic
import Mathlib.Order.Nat

/-!
# An event loop with a condition variable

`Reactor` of `EventLoopExample.cpp`: callbacks are registered for events, any
thread emits events into a queue, and the thread in `loop()` takes them out one
by one and calls the callbacks. The queue is shared under a mutex; the loop
sleeps on a condition variable while it is empty.

Every access is a step of its own: the lock, the test of the predicate, the
push, the pop, the notification. Going to sleep gives up the lock in one step; a
notification wakes a thread that sleeps and is lost on any other, and the thread
may also wake without one. A callback may emit, on the loop's own thread.
Callbacks are registered before the loop runs, since `on` takes no lock.
-/
namespace Netmux.CallbackReactor
open ActionRuns

abbrev Event := String
abbrev Data := ℤ
abbrev Entry := Event × Data

/-- The call or access that `emit` makes next. -/
inductive Emit where
  | idle
  | locking (entry : Entry)
  | pushing (entry : Entry)
  | unlocking
  | notifying
  deriving DecidableEq, Repr

/-- The call or access that `loop` makes next; `calling` and `inside` carry the
callbacks that are still to be called. -/
inductive Loop (C : Type) where
  | locking | testing | sleeping | waiting | relocking | popping
  | unlocking (entry : Entry)
  | calling (entry : Entry) (callbacks : List C)
  | inside (entry : Entry) (callbacks : List C)
  | returned
  deriving DecidableEq, Repr

/-- The reactor and its threads; `none` is the thread in `loop()`. `emitted`,
`taken` and `called` collect what was pushed, what was popped and which
callbacks were called. -/
structure Reactor (T C : Type) where
  q : List Entry
  handlers : Event → List C
  holder : Option (Option T)
  loop : Loop C
  emits : Option T → Emit
  emitted : List Entry
  taken : List Entry
  called : List (Entry × C)

variable {T C : Type}

namespace Reactor

def create : Reactor T C := ⟨[], fun _ => [], none, .locking, fun _ => .idle, [], [], []⟩

def on (r : Reactor T C) (e : Event) (cb : C) : Reactor T C :=
  { r with handlers := Function.update r.handlers e (r.handlers e ++ [cb]) }

/-- The next step of the thread in `loop()`. -/
def loopStep (r : Reactor T C) : Option (Reactor T C) :=
  match r.loop with
  | .locking | .relocking =>
      if r.holder = none then some { r with holder := some none, loop := .testing } else none
  | .testing =>
      some { r with loop := if r.q = [] then .sleeping else .popping }
  | .sleeping => some { r with holder := none, loop := .waiting }
  | .waiting | .returned => none
  | .popping =>
      match r.q with
      | entry :: q => some { r with q := q, taken := r.taken ++ [entry], loop := .unlocking entry }
      | [] => none
  | .unlocking entry => some { r with holder := none, loop := .calling entry (r.handlers entry.1) }
  | .calling entry (cb :: callbacks) =>
      some { r with called := r.called ++ [(entry, cb)], loop := .inside entry callbacks }
  | .inside entry callbacks =>
      if r.emits none = .idle then some { r with loop := .calling entry callbacks } else none
  | .calling entry [] =>
      some { r with loop := if entry.1 = "EXIT" then .returned else .locking }

def setEmit [DecidableEq T] (r : Reactor T C) (thread : Option T) (e : Emit) : Reactor T C :=
  { r with emits := Function.update r.emits thread e }

/-- `cv_.notify_one()`; only the thread in `loop()` ever waits. -/
def notifyOne (r : Reactor T C) : Reactor T C :=
  { r with loop := match r.loop with
    | .waiting => .relocking
    | point => point }

/-- The next step of a thread in `emit`. -/
def emitStep [DecidableEq T] (r : Reactor T C) (thread : Option T) : Option (Reactor T C) :=
  match r.emits thread with
  | .idle => none
  | .locking entry =>
      if r.holder = none then
        some { r.setEmit thread (.pushing entry) with holder := some thread }
      else none
  | .pushing entry =>
      some { r.setEmit thread .unlocking with
        q := r.q ++ [entry], emitted := r.emitted ++ [entry] }
  | .unlocking => some { r.setEmit thread .notifying with holder := none }
  | .notifying => some (r.notifyOne.setEmit thread .idle)

end Reactor

/-- Whether `loop` is in a callback, which may emit. -/
def Loop.isInside : Loop C → Bool
  | .inside _ _ => true
  | _ => false

inductive Action (T : Type) where
  | loop
  | wakeup
  | emit (thread : Option T) (entry : Entry)
  | proceed (thread : Option T)

def step [DecidableEq T] (r : Reactor T C) : Action T → Option (Reactor T C)
  | .loop => r.loopStep
  | .wakeup =>
      match r.loop with
      | .waiting => some { r with loop := .relocking }
      | _ => none
  | .emit thread entry =>
      if r.emits thread = .idle ∧ (thread = none → r.loop.isInside = true) then
        some (r.setEmit thread (.locking entry))
      else none
  | .proceed thread => r.emitStep thread

/-- The loop is about to run, with these callbacks registered in this order. -/
def start (registrations : List (Event × C)) : Reactor T C :=
  registrations.foldl (fun r p => r.on p.1 p.2) .create

/-- What the thread in `loop()` does in one step. -/
inductive LoopMove (r : Reactor T C) : Reactor T C → Prop
  | acquire : r.loop = .locking ∨ r.loop = .relocking → r.holder = none →
      LoopMove r { r with holder := some none, loop := .testing }
  | foundNone : r.loop = .testing → r.q = [] → LoopMove r { r with loop := .sleeping }
  | foundSome : r.loop = .testing → r.q ≠ [] → LoopMove r { r with loop := .popping }
  | sleep : r.loop = .sleeping → LoopMove r { r with holder := none, loop := .waiting }
  | pop (entry : Entry) (q : List Entry) : r.loop = .popping → r.q = entry :: q →
      LoopMove r { r with q := q, taken := r.taken ++ [entry], loop := .unlocking entry }
  | unlock (entry : Entry) : r.loop = .unlocking entry →
      LoopMove r { r with holder := none, loop := .calling entry (r.handlers entry.1) }
  | call (entry : Entry) (cb : C) (callbacks : List C) : r.loop = .calling entry (cb :: callbacks) →
      LoopMove r { r with
        called := r.called ++ [(entry, cb)]
        loop := .inside entry callbacks }
  | back (entry : Entry) (callbacks : List C) : r.loop = .inside entry callbacks →
      r.emits none = .idle → LoopMove r { r with loop := .calling entry callbacks }
  | again (entry : Entry) : r.loop = .calling entry [] → entry.1 ≠ "EXIT" →
      LoopMove r { r with loop := .locking }
  | leave (entry : Entry) : r.loop = .calling entry [] → entry.1 = "EXIT" →
      LoopMove r { r with loop := .returned }

theorem loopStep_move {r t : Reactor T C} (ht : r.loopStep = some t) : LoopMove r t := by
  unfold Reactor.loopStep at ht
  cases hloop : r.loop with
  | locking | relocking =>
      simp only [hloop, Option.ite_none_right_eq_some, Option.some.injEq] at ht
      rw [← ht.2]
      exact .acquire (by simp [hloop]) ht.1
  | testing =>
      simp only [hloop] at ht
      rw [← Option.some.inj ht]
      split_ifs with hq
      · exact .foundNone hloop hq
      · exact .foundSome hloop hq
  | sleeping =>
      simp only [hloop] at ht
      rw [← Option.some.inj ht]
      exact .sleep hloop
  | waiting | returned =>
      simp only [hloop] at ht
      cases ht
  | popping =>
      simp only [hloop] at ht
      cases hq : r.q with
      | nil =>
          rw [hq] at ht
          cases ht
      | cons entry q =>
          rw [hq] at ht
          rw [← Option.some.inj ht]
          exact .pop entry q hloop hq
  | unlocking entry =>
      simp only [hloop] at ht
      rw [← Option.some.inj ht]
      exact .unlock entry hloop
  | calling entry callbacks =>
      cases callbacks with
      | nil =>
          simp only [hloop] at ht
          rw [← Option.some.inj ht]
          split_ifs with hexit
          · exact .leave entry hloop hexit
          · exact .again entry hloop hexit
      | cons cb callbacks =>
          simp only [hloop] at ht
          rw [← Option.some.inj ht]
          exact .call entry cb callbacks hloop
  | inside entry callbacks =>
      simp only [hloop, Option.ite_none_right_eq_some, Option.some.injEq] at ht
      rw [← ht.2]
      exact .back entry callbacks hloop ht.1

/-- What a thread in `emit` does in one step. -/
inductive EmitMove [DecidableEq T] (r : Reactor T C) (thread : Option T) : Reactor T C → Prop
  | acquire (entry : Entry) : r.emits thread = .locking entry → r.holder = none →
      EmitMove r thread { r.setEmit thread (.pushing entry) with holder := some thread }
  | push (entry : Entry) : r.emits thread = .pushing entry →
      EmitMove r thread { r.setEmit thread .unlocking with
        q := r.q ++ [entry]
        emitted := r.emitted ++ [entry] }
  | unlock : r.emits thread = .unlocking →
      EmitMove r thread { r.setEmit thread .notifying with holder := none }
  | notify : r.emits thread = .notifying → EmitMove r thread (r.notifyOne.setEmit thread .idle)

theorem emitStep_move [DecidableEq T] {r t : Reactor T C} {thread : Option T}
    (ht : r.emitStep thread = some t) : EmitMove r thread t := by
  unfold Reactor.emitStep at ht
  cases hemit : r.emits thread with
  | idle =>
      simp only [hemit] at ht
      cases ht
  | locking entry =>
      simp only [hemit, Option.ite_none_right_eq_some, Option.some.injEq] at ht
      rw [← ht.2]
      exact .acquire entry hemit ht.1
  | pushing entry =>
      simp only [hemit] at ht
      rw [← Option.some.inj ht]
      exact .push entry hemit
  | unlocking =>
      simp only [hemit] at ht
      rw [← Option.some.inj ht]
      exact .unlock hemit
  | notifying =>
      simp only [hemit] at ht
      rw [← Option.some.inj ht]
      exact .notify hemit

/-- The points at which a thread holds the mutex. -/
def Emit.holds : Emit → Bool
  | .pushing _ | .unlocking => true
  | .idle | .locking _ | .notifying => false

def Loop.holds : Loop C → Bool
  | .testing | .sleeping | .popping | .unlocking _ => true
  | .locking | .waiting | .relocking | .calling _ _ | .inside _ _ | .returned => false

/-- The mutex excludes, and the loop's thread emits only from a callback. -/
structure Locked (r : Reactor T C) : Prop where
  loop : r.loop.holds = true → r.holder = some none
  emit : ∀ t, (r.emits t).holds = true → r.holder = some t
  held : ∀ t, r.holder = some t → (r.emits t).holds = true ∨ (t = none ∧ r.loop.holds = true)
  nested : r.loop.isInside = false → r.emits none = .idle

theorem start_locked (registrations : List (Event × C)) :
    Locked (start registrations : Reactor T C) := by
  have hfold : ∀ r : Reactor T C, Locked r →
      Locked (registrations.foldl (fun r p => r.on p.1 p.2) r) := by
    induction registrations with
    | nil => exact fun r h => h
    | cons p ps ih => exact fun r h => ih (r.on p.1 p.2) ⟨h.loop, h.emit, h.held, h.nested⟩
  apply hfold
  constructor <;> simp [Reactor.create, Loop.holds, Emit.holds]

/-- The thread in `loop()` takes the mutex. -/
theorem Locked.acquire {r : Reactor T C} (h : Locked r) (hfree : r.holder = none)
    (hinside : r.loop.isInside = false) :
    Locked { r with holder := some none, loop := .testing } where
  loop _ := rfl
  emit t ht := by
    have hheld := h.emit t ht
    rw [hfree] at hheld
    cases hheld
  held t ht := .inr ⟨(Option.some.inj ht).symm, rfl⟩
  nested _ := h.nested hinside

/-- It goes on, with the mutex or without it as before. -/
theorem Locked.goOn {r : Reactor T C} (h : Locked r) {point : Loop C}
    (hholds : point.holds = r.loop.holds)
    (hinside : point.isInside = false → r.emits none = .idle) :
    Locked { r with loop := point } where
  loop hpoint := h.loop (hholds ▸ hpoint)
  emit := h.emit
  held t ht := (h.held t ht).imp_right fun hloop => ⟨hloop.1, hholds.trans hloop.2⟩
  nested := hinside

/-- It gives the mutex up. -/
theorem Locked.release {r : Reactor T C} (h : Locked r) (hloop : r.loop.holds = true)
    (hinside : r.loop.isInside = false) {point : Loop C} (hpoint : point.holds = false) :
    Locked { r with holder := none, loop := point } where
  loop hholds := by
    rw [hpoint] at hholds
    cases hholds
  emit t ht := by
    have hheld := h.emit t ht
    rw [h.loop hloop] at hheld
    rw [← Option.some.inj hheld, h.nested hinside] at ht
    cases ht
  held t ht := by cases ht
  nested _ := h.nested hinside

/-- A thread in `emit` goes on, with the mutex or without it as before. -/
theorem Locked.setEmit [DecidableEq T] {r : Reactor T C} (h : Locked r) {t : Option T} {e : Emit}
    (hholds : e.holds = (r.emits t).holds)
    (hnested : t = none → r.loop.isInside = false → e = .idle) : Locked (r.setEmit t e) where
  loop := h.loop
  emit u hu := by
    by_cases hut : u = t
    · subst hut
      simp only [Reactor.setEmit, Function.update_self] at hu
      exact h.emit u (hholds ▸ hu)
    · simp only [Reactor.setEmit, Function.update_of_ne hut] at hu
      exact h.emit u hu
  held u hu := by
    by_cases hut : u = t
    · subst hut
      simp only [Reactor.setEmit, Function.update_self, hholds]
      exact h.held u hu
    · simp only [Reactor.setEmit, Function.update_of_ne hut]
      exact h.held u hu
  nested hinside := by
    have hinside : r.loop.isInside = false := hinside
    by_cases ht : none = t
    · subst ht
      simp only [Reactor.setEmit, Function.update_self]
      exact hnested rfl hinside
    · simp only [Reactor.setEmit, Function.update_of_ne ht]
      exact h.nested hinside

theorem Locked.emitAcquire [DecidableEq T] {r : Reactor T C} (h : Locked r)
    (hfree : r.holder = none) {t : Option T} (hemit : r.emits t ≠ .idle) (entry : Entry) :
    Locked { r.setEmit t (.pushing entry) with holder := some t } where
  loop hloop := by
    have hheld := h.loop hloop
    rw [hfree] at hheld
    cases hheld
  emit u hu := by
    by_cases hut : u = t
    · rw [hut]
    · simp only [Reactor.setEmit, Function.update_of_ne hut] at hu
      have hheld := h.emit u hu
      rw [hfree] at hheld
      cases hheld
  held u hu := by
    left
    obtain rfl := Option.some.inj hu
    simp [Reactor.setEmit, Emit.holds]
  nested hinside := by
    have hidle := h.nested hinside
    have ht : none ≠ t := by
      rintro rfl
      exact hemit hidle
    simp only [Reactor.setEmit, Function.update_of_ne ht]
    exact hidle

theorem Locked.emitRelease [DecidableEq T] {r : Reactor T C} (h : Locked r) {t : Option T}
    (hemit : (r.emits t).holds = true) : Locked { r.setEmit t .notifying with holder := none } where
  loop hloop := by
    have hloop : r.loop.holds = true := hloop
    have hinside : r.loop.isInside = false := by
      cases hr : r.loop <;> simp_all [Loop.holds, Loop.isInside]
    have hsame := (h.emit t hemit).symm.trans (h.loop hloop)
    obtain rfl := Option.some.inj hsame
    rw [h.nested hinside] at hemit
    cases hemit
  emit u hu := by
    by_cases hut : u = t
    · simp [hut, Reactor.setEmit, Emit.holds] at hu
    · simp only [Reactor.setEmit, Function.update_of_ne hut] at hu
      have hsame := (h.emit u hu).symm.trans (h.emit t hemit)
      exact absurd (Option.some.inj hsame) hut
  held u hu := by cases hu
  nested hinside := by
    have hidle := h.nested hinside
    have ht : none ≠ t := by
      rintro rfl
      rw [hidle] at hemit
      cases hemit
    simp only [Reactor.setEmit, Function.update_of_ne ht]
    exact hidle

/-- A notification that finds no thread asleep is lost. -/
theorem Reactor.notifyOne_of_ne (r : Reactor T C) (h : r.loop ≠ .waiting) : r.notifyOne = r := by
  have hpoint : (match r.loop with
      | .waiting => .relocking
      | point => point) = r.loop := by
    cases hloop : r.loop <;> simp_all
  unfold Reactor.notifyOne
  rw [hpoint]

/-- A notification wakes a thread that holds no mutex. -/
theorem Locked.notifyOne {r : Reactor T C} (h : Locked r) : Locked r.notifyOne := by
  by_cases hloop : r.loop = .waiting
  · have hwake : r.notifyOne = { r with loop := .relocking } := by simp [Reactor.notifyOne, hloop]
    rw [hwake]
    exact h.goOn (by rw [hloop]; rfl) fun _ => h.nested (by rw [hloop]; rfl)
  · rw [r.notifyOne_of_ne hloop]
    exact h

theorem locked_of_eq {r t : Reactor T C} (h : Locked r) (hloop : t.loop = r.loop)
    (hholder : t.holder = r.holder) (hemits : t.emits = r.emits) : Locked t where
  loop := by
    rw [hloop, hholder]
    exact h.loop
  emit := by
    rw [hemits, hholder]
    exact h.emit
  held := by
    rw [hloop, hholder, hemits]
    exact h.held
  nested := by
    rw [hloop, hemits]
    exact h.nested

theorem LoopMove.locked {r t : Reactor T C} (m : LoopMove r t) (h : Locked r) : Locked t := by
  cases m with
  | acquire hloop hfree =>
      apply h.acquire hfree
      rcases hloop with hloop | hloop <;> rw [hloop] <;> rfl
  | foundNone hloop _ | foundSome hloop _ =>
      exact h.goOn (by rw [hloop]; rfl) fun _ => h.nested (by rw [hloop]; rfl)
  | sleep hloop => exact h.release (by rw [hloop]; rfl) (by rw [hloop]; rfl) rfl
  | pop entry q hloop hq =>
      have hgone : Locked { r with loop := .unlocking entry } :=
        h.goOn (by rw [hloop]; rfl) fun _ => h.nested (by rw [hloop]; rfl)
      exact locked_of_eq hgone rfl rfl rfl
  | unlock entry hloop => exact h.release (by rw [hloop]; rfl) (by rw [hloop]; rfl) rfl
  | call entry cb callbacks hloop =>
      have hgone : Locked { r with loop := .inside entry callbacks } :=
        h.goOn (by rw [hloop]; rfl) fun _ => h.nested (by rw [hloop]; rfl)
      exact locked_of_eq hgone rfl rfl rfl
  | back entry callbacks hloop hidle => exact h.goOn (by rw [hloop]; rfl) fun _ => hidle
  | again entry hloop _ | leave entry hloop _ =>
      exact h.goOn (by rw [hloop]; rfl) fun _ => h.nested (by rw [hloop]; rfl)

theorem EmitMove.locked [DecidableEq T] {r t : Reactor T C} {thread : Option T}
    (m : EmitMove r thread t) (h : Locked r) : Locked t := by
  cases m with
  | acquire entry hemit hfree => exact h.emitAcquire hfree (by rw [hemit]; simp) entry
  | push entry hemit =>
      have hnested : thread = none → r.loop.isInside = false → Emit.unlocking = .idle := by
        rintro rfl hinside
        rw [h.nested hinside] at hemit
        cases hemit
      exact locked_of_eq (h.setEmit (by rw [hemit]; rfl) hnested) rfl rfl rfl
  | unlock hemit => exact h.emitRelease (by rw [hemit]; rfl)
  | notify hemit =>
      have hholds : Emit.idle.holds = (r.notifyOne.emits thread).holds := by
        show false = (r.emits thread).holds
        rw [hemit]
        rfl
      exact h.notifyOne.setEmit hholds fun _ _ => rfl

theorem step_locked [DecidableEq T] (r : Reactor T C) (a : Action T) (t : Reactor T C)
    (h : Locked r) (ht : step r a = some t) : Locked t := by
  cases a with
  | loop => exact (loopStep_move ht).locked h
  | wakeup =>
      simp only [step] at ht
      split at ht
      · next hloop =>
          rw [← Option.some.inj ht]
          exact h.goOn (by rw [hloop]; rfl) fun _ => h.nested (by rw [hloop]; rfl)
      · cases ht
  | emit thread entry =>
      simp only [step, Option.ite_none_right_eq_some, Option.some.injEq] at ht
      obtain ⟨⟨hidle, hinside⟩, rfl⟩ := ht
      apply h.setEmit
      · rw [hidle]
        rfl
      · intro hthread hnot
        rw [hinside hthread] at hnot
        cases hnot
  | proceed thread => exact (emitStep_move ht).locked h

/-- The calls that handling an entry makes, in the order of registration. -/
def Reactor.callsOf (r : Reactor T C) (entry : Entry) : List (Entry × C) :=
  (r.handlers entry.1).map fun cb => (entry, cb)

/-- The entry that is being handled. -/
def Loop.current : Loop C → Option Entry
  | .unlocking entry | .calling entry _ | .inside entry _ => some entry
  | .locking | .testing | .sleeping | .waiting | .relocking | .popping | .returned => none

/-- The calls still to be made for it. -/
def Reactor.due (r : Reactor T C) : List (Entry × C) :=
  match r.loop with
  | .unlocking entry => r.callsOf entry
  | .calling entry callbacks | .inside entry callbacks => callbacks.map fun cb => (entry, cb)
  | .locking | .testing | .sleeping | .waiting | .relocking | .popping | .returned => []

/-- Entries are taken in the order of their pushes, and for each in turn every
callback is called once, in the order of registration. The first "EXIT" is the
last entry taken, and the loop returns when it has been handled and not before. -/
structure Ordered (r : Reactor T C) : Prop where
  queued : r.emitted = r.taken ++ r.q
  called : r.called ++ r.due = r.taken.flatMap r.callsOf
  before : ∀ entry ∈ r.taken.dropLast, entry.1 ≠ "EXIT"
  last : ∀ entry, r.taken.getLast? = some entry → entry.1 = "EXIT" →
    r.loop = .returned ∨ r.loop.current = some entry
  current : ∀ entry, r.loop.current = some entry → r.taken.getLast? = some entry
  returned : r.loop = .returned → ∃ entry, r.taken.getLast? = some entry ∧ entry.1 = "EXIT"

theorem start_ordered (registrations : List (Event × C)) :
    Ordered (start registrations : Reactor T C) := by
  have hfold : ∀ r : Reactor T C, r.q = [] ∧ r.loop = .locking ∧ r.emitted = [] ∧ r.taken = [] ∧
      r.called = [] → Ordered (registrations.foldl (fun r p => r.on p.1 p.2) r) := by
    induction registrations with
    | nil =>
        rintro r ⟨hq, hloop, hemitted, htaken, hcalled⟩
        constructor <;> simp [hq, hloop, hemitted, htaken, hcalled, Reactor.due, Loop.current]
    | cons p ps ih => exact fun r h => ih (r.on p.1 p.2) h
  exact hfold _ ⟨rfl, rfl, rfl, rfl, rfl⟩

/-- The loop goes on with the entry it handles, or with none. -/
theorem Ordered.goOn {r t : Reactor T C} (h : Ordered r) (hq : t.q = r.q)
    (hhandlers : t.handlers = r.handlers) (hemitted : t.emitted = r.emitted)
    (htaken : t.taken = r.taken) (hcalled : t.called ++ t.due = r.called ++ r.due)
    (hcurrent : t.loop.current = r.loop.current)
    (hreturned : t.loop = .returned ↔ r.loop = .returned) : Ordered t where
  queued := by rw [hemitted, htaken, hq, h.queued]
  called := by
    rw [hcalled, htaken, h.called]
    unfold Reactor.callsOf
    rw [hhandlers]
  before := by
    rw [htaken]
    exact h.before
  last := by
    rw [htaken, hcurrent, hreturned]
    exact h.last
  current := by
    rw [htaken, hcurrent]
    exact h.current
  returned := by
    rw [htaken, hreturned]
    exact h.returned

/-- Between two entries no "EXIT" has been taken. -/
theorem Ordered.goesOn {r : Reactor T C} (h : Ordered r) (hcurrent : r.loop.current = none)
    (hloop : r.loop ≠ .returned) : ∀ entry ∈ r.taken, entry.1 ≠ "EXIT" := by
  intro entry hentry hexit
  rcases List.eq_nil_or_concat r.taken with hnil | ⟨before, last, htaken⟩
  · rw [hnil] at hentry
    cases hentry
  · rw [List.concat_eq_append] at htaken
    have hbefore := h.before
    rw [htaken, List.dropLast_concat] at hbefore
    rw [htaken] at hentry
    rcases List.mem_append.mp hentry with hold | hlast
    · exact hbefore entry hold hexit
    · obtain rfl := List.mem_singleton.mp hlast
      have hgetLast : r.taken.getLast? = some entry := by rw [htaken, List.getLast?_concat]
      rcases h.last entry hgetLast hexit with hreturned | hhandled
      · exact hloop hreturned
      · rw [hcurrent] at hhandled
        cases hhandled

theorem Ordered.pop {r : Reactor T C} (h : Ordered r) (hloop : r.loop = .popping)
    {entry : Entry} {q : List Entry} (hq : r.q = entry :: q) :
    Ordered { r with q := q, taken := r.taken ++ [entry], loop := .unlocking entry } where
  queued := by
    show r.emitted = (r.taken ++ [entry]) ++ q
    rw [h.queued, hq, List.append_assoc, List.singleton_append]
  called := by
    have hcalled := h.called
    simp only [Reactor.due, hloop, List.append_nil] at hcalled
    show r.called ++ r.callsOf entry = (r.taken ++ [entry]).flatMap r.callsOf
    rw [List.flatMap_append, List.flatMap_singleton, hcalled]
  before := by
    show ∀ x ∈ (r.taken ++ [entry]).dropLast, x.1 ≠ "EXIT"
    rw [List.dropLast_concat]
    exact h.goesOn (by rw [hloop]; rfl) (by simp [hloop])
  last x hx _ := by
    right
    show some entry = some x
    rw [← hx, List.getLast?_concat]
  current x hx := by
    show (r.taken ++ [entry]).getLast? = some x
    rw [List.getLast?_concat]
    exact hx
  returned hreturned := by cases hreturned

/-- The last callback of an entry that is no "EXIT" has returned. -/
theorem Ordered.again {r : Reactor T C} (h : Ordered r) {entry : Entry}
    (hloop : r.loop = .calling entry []) (hexit : entry.1 ≠ "EXIT") :
    Ordered { r with loop := .locking } where
  queued := h.queued
  called := by
    have hcalled := h.called
    simp only [Reactor.due, hloop, List.map_nil] at hcalled
    exact hcalled
  before := h.before
  last x hx hlast := by
    have hcurrent := h.current entry (by rw [hloop]; rfl)
    rw [← Option.some.inj (hcurrent.symm.trans hx)] at hlast
    exact absurd hlast hexit
  current x hx := by cases hx
  returned hreturned := by cases hreturned

theorem Ordered.leave {r : Reactor T C} (h : Ordered r) {entry : Entry}
    (hloop : r.loop = .calling entry []) (hexit : entry.1 = "EXIT") :
    Ordered { r with loop := .returned } where
  queued := h.queued
  called := by
    have hcalled := h.called
    simp only [Reactor.due, hloop, List.map_nil] at hcalled
    exact hcalled
  before := h.before
  last _ _ _ := .inl rfl
  current x hx := by cases hx
  returned _ := ⟨entry, h.current entry (by rw [hloop]; rfl), hexit⟩

theorem LoopMove.ordered {r t : Reactor T C} (m : LoopMove r t) (h : Ordered r) : Ordered t := by
  cases m with
  | acquire hloop _ =>
      rcases hloop with hloop | hloop
      · exact h.goOn rfl rfl rfl rfl (by simp [Reactor.due, hloop]) (by rw [hloop]; rfl)
          (by simp [hloop])
      · exact h.goOn rfl rfl rfl rfl (by simp [Reactor.due, hloop]) (by rw [hloop]; rfl)
          (by simp [hloop])
  | foundNone hloop _ | foundSome hloop _ | sleep hloop | back entry callbacks hloop _ =>
      exact h.goOn rfl rfl rfl rfl (by simp [Reactor.due, hloop]) (by rw [hloop]; rfl)
        (by simp [hloop])
  | pop entry q hloop hq => exact h.pop hloop hq
  | unlock entry hloop =>
      exact h.goOn rfl rfl rfl rfl (by simp [Reactor.due, hloop, Reactor.callsOf])
        (by rw [hloop]; rfl) (by simp [hloop])
  | call entry cb callbacks hloop =>
      exact h.goOn rfl rfl rfl rfl (by simp [Reactor.due, hloop]) (by rw [hloop]; rfl)
        (by simp [hloop])
  | again entry hloop hexit => exact h.again hloop hexit
  | leave entry hloop hexit => exact h.leave hloop hexit

theorem Ordered.notifyOne {r : Reactor T C} (h : Ordered r) : Ordered r.notifyOne := by
  by_cases hloop : r.loop = .waiting
  · have hwake : r.notifyOne = { r with loop := .relocking } := by simp [Reactor.notifyOne, hloop]
    rw [hwake]
    exact h.goOn rfl rfl rfl rfl (by simp [Reactor.due, hloop]) (by rw [hloop]; rfl)
      (by simp [hloop])
  · rw [r.notifyOne_of_ne hloop]
    exact h

theorem EmitMove.ordered [DecidableEq T] {r t : Reactor T C} {thread : Option T}
    (m : EmitMove r thread t) (h : Ordered r) : Ordered t := by
  cases m with
  | acquire entry _ _ => exact h.goOn rfl rfl rfl rfl rfl rfl Iff.rfl
  | push entry _ =>
      refine ⟨?_, h.called, h.before, h.last, h.current, h.returned⟩
      show r.emitted ++ [entry] = r.taken ++ (r.q ++ [entry])
      rw [h.queued, List.append_assoc]
  | unlock _ => exact h.goOn rfl rfl rfl rfl rfl rfl Iff.rfl
  | notify _ => exact h.notifyOne.goOn rfl rfl rfl rfl rfl rfl Iff.rfl

theorem step_ordered [DecidableEq T] (r : Reactor T C) (a : Action T) (t : Reactor T C)
    (h : Ordered r) (ht : step r a = some t) : Ordered t := by
  cases a with
  | loop => exact (loopStep_move ht).ordered h
  | wakeup =>
      simp only [step] at ht
      split at ht
      · next hloop =>
          rw [← Option.some.inj ht]
          exact h.goOn rfl rfl rfl rfl (by simp [Reactor.due, hloop]) (by rw [hloop]; rfl)
            (by simp [hloop])
      · cases ht
  | emit thread entry =>
      simp only [step, Option.ite_none_right_eq_some, Option.some.injEq] at ht
      rw [← ht.2]
      exact h.goOn rfl rfl rfl rfl rfl rfl Iff.rfl
  | proceed thread => exact (emitStep_move ht).ordered h

/-- The callbacks of each event are those registered for it, in that order. -/
def Registered (registrations : List (Event × C)) (r : Reactor T C) : Prop :=
  ∀ e, r.handlers e = (registrations.filter fun p => p.1 = e).map Prod.snd

theorem start_registered (registrations : List (Event × C)) :
    Registered registrations (start registrations : Reactor T C) := by
  have hfold : ∀ (r : Reactor T C) (e : Event),
      (registrations.foldl (fun r p => r.on p.1 p.2) r).handlers e =
        r.handlers e ++ (registrations.filter fun p => p.1 = e).map Prod.snd := by
    induction registrations with
    | nil => exact fun r e => (List.append_nil _).symm
    | cons p ps ih =>
        intro r e
        rw [List.foldl_cons, ih]
        by_cases hp : p.1 = e
        · subst hp
          simp [Reactor.on]
        · simp [Reactor.on, hp, Function.update_of_ne (Ne.symm hp)]
  intro e
  rw [start, hfold]
  rfl

theorem LoopMove.handlers {r t : Reactor T C} (m : LoopMove r t) : t.handlers = r.handlers := by
  cases m <;> rfl

theorem EmitMove.handlers [DecidableEq T] {r t : Reactor T C} {thread : Option T}
    (m : EmitMove r thread t) : t.handlers = r.handlers := by
  cases m <;> rfl

theorem step_handlers [DecidableEq T] {r t : Reactor T C} {a : Action T}
    (ht : step r a = some t) : t.handlers = r.handlers := by
  cases a with
  | loop => exact (loopStep_move ht).handlers
  | wakeup =>
      simp only [step] at ht
      split at ht
      · rw [← Option.some.inj ht]
      · cases ht
  | emit thread entry =>
      simp only [step, Option.ite_none_right_eq_some, Option.some.injEq] at ht
      rw [← ht.2]
      rfl
  | proceed thread => exact (emitStep_move ht).handlers

/-- Whatever the threads emit and however they are scheduled, callbacks that
emit included. -/
theorem events_in_order [DecidableEq T] (registrations : List (Event × C))
    (as : List (Action T)) :
    Throughout step (fun r => Ordered r ∧ Registered registrations r)
      (start registrations : Reactor T C) as := by
  have hkeep : ∀ (r : Reactor T C) (a : Action T) (t : Reactor T C),
      Ordered r ∧ Registered registrations r → step r a = some t →
        Ordered t ∧ Registered registrations t := by
    intro r a t h ht
    refine ⟨step_ordered r a t h.1 ht, ?_⟩
    unfold Registered
    rw [step_handlers ht]
    exact h.2
  exact throughout_of_step hkeep as ⟨start_ordered registrations, start_registered registrations⟩

/-- The loop goes to sleep only on an empty queue, pops only from one that is
not, and while it sleeps, whoever has pushed has yet to notify. -/
structure Awake (r : Reactor T C) : Prop where
  sleeping : r.loop = .sleeping → r.q = []
  popping : r.loop = .popping → r.q ≠ []
  waiting : r.loop = .waiting → r.q ≠ [] → ∃ t, r.emits t = .unlocking ∨ r.emits t = .notifying

theorem start_awake (registrations : List (Event × C)) :
    Awake (start registrations : Reactor T C) := by
  have hfold : ∀ r : Reactor T C, r.loop = .locking →
      Awake (registrations.foldl (fun r p => r.on p.1 p.2) r) := by
    induction registrations with
    | nil =>
        intro r hloop
        constructor <;> simp [hloop]
    | cons p ps ih => exact fun r h => ih (r.on p.1 p.2) h
  exact hfold _ rfl

/-- At a point of the loop that is none of the three nothing is asked. -/
theorem awake_of_point {r : Reactor T C} (hs : r.loop ≠ .sleeping) (hp : r.loop ≠ .popping)
    (hw : r.loop ≠ .waiting) : Awake r :=
  ⟨fun h => absurd h hs, fun h => absurd h hp, fun h => absurd h hw⟩

theorem LoopMove.awake {r t : Reactor T C} (m : LoopMove r t) (h : Awake r) : Awake t := by
  cases m with
  | foundNone _ hq => exact ⟨fun _ => hq, by simp, by simp⟩
  | foundSome _ hq => exact ⟨by simp, fun _ => hq, by simp⟩
  | sleep hloop => exact ⟨by simp, by simp, fun _ hq => absurd (h.sleeping hloop) hq⟩
  | acquire _ _ | pop _ _ _ _ | unlock _ _ | call _ _ _ _ | back _ _ _ _ | again _ _ _
  | leave _ _ _ => exact awake_of_point (by simp) (by simp) (by simp)

/-- The loop can go on unless another thread holds the mutex, it sleeps or one of
its callbacks emits. -/
theorem loopStep_isSome {r : Reactor T C} (h : Awake r)
    (hfree : r.holder = none ∨ r.loop.holds = true) (hwaiting : r.loop ≠ .waiting)
    (hreturned : r.loop ≠ .returned) (hidle : r.emits none = .idle) :
    ∃ t, r.loopStep = some t := by
  unfold Reactor.loopStep
  cases hloop : r.loop with
  | locking | relocking =>
      rcases hfree with hfree | hholds
      · exact ⟨_, if_pos hfree⟩
      · rw [hloop] at hholds
        cases hholds
  | testing | sleeping | unlocking entry => exact ⟨_, rfl⟩
  | waiting => exact absurd hloop hwaiting
  | popping =>
      obtain ⟨entry, q, hq⟩ := List.exists_cons_of_ne_nil (h.popping hloop)
      rw [hq]
      exact ⟨_, rfl⟩
  | calling entry callbacks => cases callbacks <;> exact ⟨_, rfl⟩
  | inside entry callbacks => exact ⟨_, if_pos hidle⟩
  | returned => exact absurd hloop hreturned

section Emitting
variable [DecidableEq T]

/-- A thread that is not about to notify goes on in `emit`. -/
theorem Awake.setEmit {r : Reactor T C} (h : Awake r) {t : Option T} (e : Emit)
    (hunlocking : r.emits t ≠ .unlocking) (hnotifying : r.emits t ≠ .notifying) :
    Awake (r.setEmit t e) where
  sleeping := h.sleeping
  popping := h.popping
  waiting hloop hq := by
    obtain ⟨u, hu⟩ := h.waiting hloop hq
    have hut : u ≠ t := by
      rintro rfl
      exact hu.elim hunlocking hnotifying
    exact ⟨u, by simpa only [Reactor.setEmit, Function.update_of_ne hut] using hu⟩

theorem EmitMove.awake {r t : Reactor T C} {thread : Option T} (m : EmitMove r thread t)
    (hr : Locked r) (h : Awake r) : Awake t := by
  cases m with
  | acquire entry hemit _ =>
      have hset := h.setEmit (.pushing entry) (by rw [hemit]; simp) (by rw [hemit]; simp)
      exact ⟨hset.sleeping, hset.popping, hset.waiting⟩
  | push entry hemit =>
      constructor
      · intro hloop
        have hsleeping : r.loop = .sleeping := hloop
        -- Both would hold the mutex.
        have hholder := hr.emit thread (by rw [hemit]; rfl)
        rw [hr.loop (by rw [hsleeping]; rfl)] at hholder
        obtain rfl := Option.some.inj hholder
        rw [hr.nested (by rw [hsleeping]; rfl)] at hemit
        cases hemit
      · exact fun _ => List.append_ne_nil_of_right_ne_nil _ (List.cons_ne_nil _ _)
      · exact fun _ _ => ⟨thread, .inl (Function.update_self ..)⟩
  | unlock _ => exact ⟨h.sleeping, h.popping, fun _ _ => ⟨thread, .inr (Function.update_self ..)⟩⟩
  | notify _ =>
      by_cases hwaiting : r.loop = .waiting
      · apply awake_of_point <;> simp [Reactor.notifyOne, Reactor.setEmit, hwaiting]
      · rw [r.notifyOne_of_ne hwaiting]
        exact ⟨h.sleeping, h.popping, fun hw => absurd hw hwaiting⟩

theorem step_awake (r : Reactor T C) (a : Action T) (t : Reactor T C) (h : Locked r ∧ Awake r)
    (ht : step r a = some t) : Locked t ∧ Awake t := by
  constructor
  · exact step_locked r a t h.1 ht
  · cases a with
    | loop => exact (loopStep_move ht).awake h.2
    | wakeup =>
        simp only [step] at ht
        split at ht
        · rw [← Option.some.inj ht]
          exact awake_of_point (by simp) (by simp) (by simp)
        · cases ht
    | emit thread entry =>
        simp only [step, Option.ite_none_right_eq_some, Option.some.injEq] at ht
        rw [← ht.2]
        exact h.2.setEmit _ (by rw [ht.1.1]; simp) (by rw [ht.1.1]; simp)
    | proceed thread => exact (emitStep_move ht).awake h.1 h.2

/-- Something is under way: a call of `emit`, an entry in the queue, or a pass
of the loop that has not gone to sleep. -/
def Busy (r : Reactor T C) : Prop :=
  (∃ t, r.emits t ≠ .idle) ∨ (r.loop ≠ .returned ∧ (r.q ≠ [] ∨ r.loop ≠ .waiting))

/-- A thread goes on with what it has begun. -/
def Action.goesOn : Action T → Bool
  | .loop | .proceed _ => true
  | .emit _ _ | .wakeup => false

/-- A thread in `emit` can go on unless another holds the mutex. -/
theorem emitStep_isSome {r : Reactor T C} {thread : Option T} (hemit : r.emits thread ≠ .idle)
    (hfree : r.holder = none ∨ (r.emits thread).holds = true) :
    ∃ t, r.emitStep thread = some t := by
  unfold Reactor.emitStep
  cases hpoint : r.emits thread with
  | idle => exact absurd hpoint hemit
  | locking entry =>
      rcases hfree with hfree | hholds
      · exact ⟨_, if_pos hfree⟩
      · rw [hpoint] at hholds
        cases hholds
  | pushing entry => exact ⟨_, rfl⟩
  | unlocking => exact ⟨_, rfl⟩
  | notifying => exact ⟨_, rfl⟩

/-- Whoever holds the mutex can go on; if nobody does, a thread in `emit` can,
or the loop, which does not sleep on an entry nobody will notify it of. -/
theorem Awake.goes_on {r : Reactor T C} (h : Awake r) (hr : Locked r) (hbusy : Busy r) :
    ∃ a t, Action.goesOn a = true ∧ step r a = some t := by
  cases hholder : r.holder with
  | some t =>
      rcases hr.held t hholder with hemit | ⟨-, hloop⟩
      · have hnot : r.emits t ≠ .idle := by
          intro hidle
          rw [hidle] at hemit
          cases hemit
        obtain ⟨u, hu⟩ := emitStep_isSome hnot (.inr hemit)
        exact ⟨.proceed t, u, rfl, hu⟩
      · have hpoint : r.loop ≠ .waiting ∧ r.loop ≠ .returned ∧ r.loop.isInside = false := by
          cases hl : r.loop <;> simp_all [Loop.holds, Loop.isInside]
        obtain ⟨u, hu⟩ := loopStep_isSome h (.inr hloop) hpoint.1 hpoint.2.1
          (hr.nested hpoint.2.2)
        exact ⟨.loop, u, rfl, hu⟩
  | none =>
      by_cases hemit : ∃ t, r.emits t ≠ .idle
      · obtain ⟨t, ht⟩ := hemit
        obtain ⟨u, hu⟩ := emitStep_isSome ht (.inl hholder)
        exact ⟨.proceed t, u, rfl, hu⟩
      · push Not at hemit
        have hloop : r.loop ≠ .returned ∧ r.loop ≠ .waiting := by
          rcases hbusy with ⟨t, ht⟩ | ⟨hreturned, hq | hwaiting⟩
          · exact absurd (hemit t) ht
          · refine ⟨hreturned, ?_⟩
            intro hwaiting
            obtain ⟨t, ht⟩ := h.waiting hwaiting hq
            rw [hemit t] at ht
            rcases ht with hu | hn
            · cases hu
            · cases hn
          · exact ⟨hreturned, hwaiting⟩
        obtain ⟨u, hu⟩ := loopStep_isSome h (.inl hholder) hloop.2 hloop.1 (hemit none)
        exact ⟨.loop, u, rfl, hu⟩

/-- No run deadlocks: as long as an `emit` is under way, or the loop has not returned
and has an entry to take or is awake, some thread can go on. -/
theorem never_stuck (registrations : List (Event × C)) (as : List (Action T)) :
    Throughout step (fun r => Busy r → ∃ a t, Action.goesOn a = true ∧ step r a = some t)
      (start registrations : Reactor T C) as :=
  (throughout_of_step step_awake as ⟨start_locked registrations, start_awake registrations⟩).imp
    fun _ h hbusy => h.2.goes_on h.1 hbusy

end Emitting

/-- The steps the loop's thread makes for one entry. -/
def Reactor.cost (r : Reactor T C) (entry : Entry) : ℕ := 5 + 2 * (r.handlers entry.1).length

/-- The steps it makes before it next takes an entry, if the queue has one. -/
def Reactor.lag (r : Reactor T C) : ℕ :=
  match r.loop with
  | .popping => 0
  | .testing => 1
  | .locking | .relocking | .waiting | .sleeping => 2
  | .calling _ callbacks => 2 * callbacks.length + 3
  | .inside _ callbacks => 2 * callbacks.length + 4
  | .unlocking entry => 2 * (r.handlers entry.1).length + 4
  | .returned => 0

/-- The steps it makes before it takes the entry pushed at this index. -/
def Reactor.distance (r : Reactor T C) (index : ℕ) : ℕ :=
  r.lag + ((r.q.take (index - r.taken.length)).map r.cost).sum

/-- The entry of this index has been taken, or an "EXIT" before it. -/
def Reached (index : ℕ) (r : Reactor T C) : Prop :=
  index < r.taken.length ∨ r.loop = .returned

def Action.isLoops : Action T → Bool
  | .loop => true
  | .emit _ _ | .wakeup | .proceed _ => false

/-- What the rank argument needs of a state. -/
structure Counted (index : ℕ) (r : Reactor T C) : Prop where
  locked : Locked r
  ordered : Ordered r
  awake : Awake r
  pushed : index < r.emitted.length

theorem Counted.inQueue {index : ℕ} {r : Reactor T C} (h : Counted index r)
    (hnot : ¬ Reached index r) : r.taken.length ≤ index ∧ index - r.taken.length < r.q.length := by
  have hpushed := h.pushed
  rw [h.ordered.queued, List.length_append] at hpushed
  have htaken : r.taken.length ≤ index := by
    by_contra hlt
    exact hnot (.inl (by omega))
  omega

/-- Each step of the loop brings an entry that waits nearer. -/
theorem LoopMove.distance {index : ℕ} {r t : Reactor T C} (m : LoopMove r t)
    (h : Counted index r) (hnot : ¬ Reached index r) :
    Reached index t ∨ t.distance index + 1 ≤ r.distance index := by
  obtain ⟨hbehind, hinside⟩ := h.inQueue hnot
  have hq : r.q ≠ [] := List.length_pos_iff.mp (by omega)
  have hlag : ∀ {u : Reactor T C}, u.lag + 1 ≤ r.lag → u.q = r.q → u.taken = r.taken →
      u.handlers = r.handlers → u.distance index + 1 ≤ r.distance index := by
    intro u hu huq hutaken huhandlers
    unfold Reactor.distance Reactor.cost
    rw [huq, hutaken, huhandlers]
    omega
  cases m with
  | acquire hloop _ =>
      right
      refine hlag ?_ rfl rfl rfl
      rcases hloop with hloop | hloop <;> simp [Reactor.lag, hloop]
  | foundNone _ hnone => exact absurd hnone hq
  | foundSome hloop _ => exact .inr (hlag (by simp [Reactor.lag, hloop]) rfl rfl rfl)
  | sleep hloop => exact absurd (h.awake.sleeping hloop) hq
  | pop entry q hloop hcons =>
      by_cases hhead : index = r.taken.length
      · left
        left
        simp [hhead]
      · right
        have hsucc : index - r.taken.length = (index - (r.taken.length + 1)) + 1 := by omega
        have htake : r.q.take (index - r.taken.length) =
            entry :: q.take (index - (r.taken.length + 1)) := by
          rw [hcons, hsucc, List.take_succ_cons]
        simp only [Reactor.distance, Reactor.lag, hloop, htake, List.length_append,
          List.length_singleton, List.map_cons, List.sum_cons, Reactor.cost]
        change 2 * (r.handlers entry.1).length + 4 +
            ((q.take (index - (r.taken.length + 1))).map r.cost).sum + 1 ≤
          0 + (5 + 2 * (r.handlers entry.1).length +
            ((q.take (index - (r.taken.length + 1))).map r.cost).sum)
        omega
  | unlock entry hloop => exact .inr (hlag (by simp [Reactor.lag, hloop]) rfl rfl rfl)
  | call entry cb callbacks hloop =>
      exact .inr (hlag (by simp only [Reactor.lag, hloop, List.length_cons]; omega) rfl rfl rfl)
  | back entry callbacks hloop _ => exact .inr (hlag (by simp [Reactor.lag, hloop]) rfl rfl rfl)
  | again entry hloop _ => exact .inr (hlag (by simp [Reactor.lag, hloop]) rfl rfl rfl)
  | leave _ _ _ => exact .inl (.inr rfl)

/-- A step that leaves the loop where it is, or wakes it, and takes nothing. -/
theorem distance_of_eq {index : ℕ} {r t : Reactor T C} (hlag : t.lag = r.lag)
    (htaken : t.taken = r.taken) (hhandlers : t.handlers = r.handlers)
    (hq : t.q.take (index - r.taken.length) = r.q.take (index - r.taken.length)) :
    t.distance index = r.distance index := by
  unfold Reactor.distance Reactor.cost
  rw [hlag, htaken, hhandlers, hq]

theorem lag_notifyOne (r : Reactor T C) : r.notifyOne.lag = r.lag := by
  by_cases hloop : r.loop = .waiting
  · simp [Reactor.lag, Reactor.notifyOne, hloop]
  · rw [r.notifyOne_of_ne hloop]

theorem LoopMove.reached {index : ℕ} {r t : Reactor T C} (m : LoopMove r t)
    (h : Reached index r) : Reached index t := by
  have hlt : r.loop ≠ .returned → index < r.taken.length := fun hloop => h.resolve_right hloop
  cases m with
  | acquire hloop _ => exact .inl (hlt (by rcases hloop with hl | hl <;> simp [hl]))
  | foundNone hloop _ | foundSome hloop _ | sleep hloop | unlock _ hloop | call _ _ _ hloop
  | back _ _ hloop _ | again _ hloop _ => exact .inl (hlt (by simp [hloop]))
  | pop entry q hloop hq =>
      have hold := hlt (by simp [hloop])
      left
      simp only [List.length_append, List.length_singleton]
      omega
  | leave _ _ _ => exact .inr rfl

theorem LoopMove.emitted {r t : Reactor T C} (m : LoopMove r t) : t.emitted = r.emitted := by
  cases m <;> rfl

section Taking
variable [DecidableEq T] {index : ℕ}

theorem EmitMove.distance {r t : Reactor T C} {thread : Option T} (m : EmitMove r thread t)
    (hinside : index - r.taken.length < r.q.length) : t.distance index = r.distance index := by
  cases m with
  | acquire _ _ _ => exact distance_of_eq rfl rfl rfl rfl
  | push entry _ => exact distance_of_eq rfl rfl rfl (List.take_append_of_le_length hinside.le)
  | unlock _ => exact distance_of_eq rfl rfl rfl rfl
  | notify _ => exact distance_of_eq (lag_notifyOne r) rfl rfl rfl

theorem EmitMove.reached {r t : Reactor T C} {thread : Option T} (m : EmitMove r thread t)
    (h : Reached index r) : Reached index t := by
  cases m with
  | acquire _ _ _ | push _ _ | unlock _ => exact h
  | notify _ =>
      apply h.imp_right
      intro hloop
      simp [Reactor.setEmit, Reactor.notifyOne, hloop]

theorem EmitMove.emitted {r t : Reactor T C} {thread : Option T} (m : EmitMove r thread t) :
    r.emitted.length ≤ t.emitted.length := by
  cases m with
  | acquire _ _ _ | unlock _ | notify _ => exact le_rfl
  | push entry _ =>
      simp only [List.length_append]
      omega

theorem step_reached (r : Reactor T C) (a : Action T) (t : Reactor T C)
    (h : Reached index r) (ht : step r a = some t) : Reached index t := by
  cases a with
  | loop => exact (loopStep_move ht).reached h
  | wakeup =>
      simp only [step] at ht
      split at ht
      · next hloop =>
          rw [← Option.some.inj ht]
          exact .inl (h.resolve_right (by simp [hloop]))
      · cases ht
  | emit thread entry =>
      simp only [step, Option.ite_none_right_eq_some, Option.some.injEq] at ht
      rw [← ht.2]
      exact h
  | proceed thread => exact (emitStep_move ht).reached h

theorem step_counted (r : Reactor T C) (a : Action T) (t : Reactor T C)
    (h : Counted index r) (ht : step r a = some t) : Counted index t := by
  obtain ⟨hlocked, hawake⟩ := step_awake r a t ⟨h.locked, h.awake⟩ ht
  refine ⟨hlocked, step_ordered r a t h.ordered ht, hawake, lt_of_lt_of_le h.pushed ?_⟩
  cases a with
  | loop => rw [(loopStep_move ht).emitted]
  | wakeup =>
      simp only [step] at ht
      split at ht
      · rw [← Option.some.inj ht]
      · cases ht
  | emit thread entry =>
      simp only [step, Option.ite_none_right_eq_some, Option.some.injEq] at ht
      rw [← ht.2]
      exact le_rfl
  | proceed thread => exact (emitStep_move ht).emitted

theorem step_distance {r t : Reactor T C} {a : Action T} (h : Counted index r)
    (hnot : ¬ Reached index r) (ht : step r a = some t) :
    Reached index t ∨
      t.distance index + (if a.isLoops = true then 1 else 0) ≤ r.distance index := by
  cases a with
  | loop => exact (loopStep_move ht).distance h hnot
  | wakeup =>
      simp only [step] at ht
      split at ht
      · next hloop =>
          rw [← Option.some.inj ht]
          have hlag : ({ r with loop := .relocking } : Reactor T C).lag = r.lag := by
            simp [Reactor.lag, hloop]
          exact .inr (distance_of_eq hlag rfl rfl rfl).le
      · cases ht
  | emit thread entry =>
      simp only [step, Option.ite_none_right_eq_some, Option.some.injEq] at ht
      rw [← ht.2]
      exact .inr (distance_of_eq rfl rfl rfl rfl).le
  | proceed thread => exact .inr ((emitStep_move ht).distance (h.inQueue hnot).2).le

/-- An emitted entry is taken, or the loop ends at an "EXIT" before it, by the
time the loop's thread has made as many steps as the entries before it and their
callbacks call for, whatever the other threads do meanwhile. -/
theorem taken_within {registrations : List (Event × C)} {as bs : List (Action T)}
    {r t : Reactor T C} (hr : run step (start registrations) as = some r)
    (hpushed : index < r.emitted.length) (ht : run step r bs = some t)
    (hsteps : r.distance index < bs.countP Action.isLoops) : Reached index t := by
  have hstart : Locked (start registrations : Reactor T C) ∧
      Awake (start registrations : Reactor T C) :=
    ⟨start_locked registrations, start_awake registrations⟩
  obtain ⟨hlocked, hawake⟩ := run_preserves step_awake hstart hr
  have hordered := run_preserves step_ordered (start_ordered registrations) hr
  have hmeets : Meets step (fun _ _ => True) r bs :=
    meets_of_step (I := fun _ => True) (fun _ _ _ _ _ => trivial) (fun _ _ _ => trivial) bs trivial
  exact reached_of_rank (fun s a u hs _ hu => step_counted s a u hs hu) step_reached
    (fun s a u hs _ hnot hu => step_distance hs hnot hu) ⟨hlocked, hordered, hawake, hpushed⟩
    hmeets ht hsteps

end Taking

/-- A thread emits while the loop has not begun. -/
def ticked : List (Action ℕ) :=
  [.emit (some 0) ("TICK", 1), .proceed (some 0), .proceed (some 0), .proceed (some 0),
    .proceed (some 0)]

def queuedTick : Reactor ℕ ℕ := (run step (start [("TICK", 7)]) ticked).getD .create

theorem taken_within_ticked :
    ∃ t ∈ run step queuedTick [.loop, .loop, .loop], Reached 0 t := by
  obtain ⟨t, ht⟩ := Option.isSome_iff_exists.mp
    (by decide +kernel : (run step queuedTick [.loop, .loop, .loop]).isSome = true)
  exact ⟨t, ht, @taken_within ℕ ℕ _ 0 [("TICK", 7)] ticked [.loop, .loop, .loop] queuedTick t rfl
    (by decide +kernel) ht (by decide +kernel)⟩

end Netmux.CallbackReactor
