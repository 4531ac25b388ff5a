import Mathlib.Data.Nat.Notation
import Mathlib.Logic.Function.Basic
import Netmux.ActionRuns

/-!
# An event loop among threads

`EventLoopThread::threadFunc` with `EventLoop::loop` on one thread, and any
number of other threads that call `queueInLoop` and `quit` on the same loop.
Every access to shared data is one step: the push under the lock, the eventfd
write after it, the store to `quit_`, the swap. A list of steps is an
interleaving.

User code runs on the loop's thread in the thread's callback, in the channel
callbacks of a dispatch and in the functors; there it may queue functors and
call `quit` as well. `postInLoop` is `queueInLoop` for another thread and a
plain call on the loop's own, so it adds no step. A loop that no
`EventLoopThread` owns is `shared` from the start.

The eventfd counts its writes and drops to zero when read. `poll` may report it
only while it is positive, and may return at any time otherwise. The state
carries the history the properties speak about: what was queued and what has
been executed, which calls have completed, and which had when `quit_` was last
set.
-/
namespace Netmux.EventLoop
open ActionRuns

variable {F T : Type}

/-- The statement that the loop's thread is to execute next. -/
inductive Pc (F : Type) where
  | initCallback | publish | setLooping | resetQuit | testQuit | poll
  | dispatch (wakeup : Bool)
  | setCalling | swap
  | batch (functors : List F)
  | running (functor : F) (functors : List F)
  | clearLooping | returned | finished
  deriving DecidableEq

namespace Pc

/-- User code runs here on the loop's thread. -/
def inUserCode : Pc F → Bool
  | initCallback | dispatch _ | running _ _ => true
  | _ => false

/-- `loop()` has yet to execute `quit_=false`. -/
def beforeReset : Pc F → Bool
  | initCallback | publish | setLooping | resetQuit => true
  | _ => false

/-- `poll` has returned, and the swap of this iteration is still to come. -/
def collecting : Pc F → Bool
  | dispatch _ | setCalling | swap => true
  | _ => false

def polling : Pc F → Bool
  | poll => true
  | _ => false

/-- `loop()` has returned. -/
def hasReturned : Pc F → Bool
  | returned | finished => true
  | _ => false

/-- The loop object still exists. -/
def alive : Pc F → Bool
  | finished => false
  | _ => true

/-- The functors swapped out and not yet executed. -/
def unexecuted : Pc F → List F
  | batch functors => functors
  | running functor functors => functor :: functors
  | _ => []

end Pc

/-- Another thread, between two statements of `queueInLoop`, `quit` or the
destructor of the loop's thread. `index` is the position of the functor it has
queued. -/
inductive Caller where
  | idle
  | pushed (index : ℕ)
  | quitStored
  | joined
  deriving DecidableEq, Repr

def Caller.hasPushed : Caller → Bool
  | pushed _ => true
  | _ => false

structure State (F T : Type) where
  looping : Bool
  quit : Bool
  callingPendingFunctors : Bool
  pendingFunctors : List F
  counter : ℕ
  shared : Bool
  pc : Pc F
  /-- A `queueInLoop` of the loop's own thread that has pushed its functor. -/
  own : Option ℕ
  threads : T → Caller
  queued : List F
  executed : List F
  completed : List ℕ
  due : List ℕ
  quitDone : Bool

inductive LoopAction (F T : Type) where
  | advance (ready : Bool)
  | selfPush (functor : F)
  | selfWake
  | selfQuit
  | push (t : T) (functor : F)
  | wake (t : T)
  | quit (t : T)
  | quitWake (t : T)
  | join (t : T)

namespace State

/-- The constructed loop, before its thread has run anything. -/
def create (shared : Bool) : State F T where
  looping := false
  quit := false
  callingPendingFunctors := false
  pendingFunctors := []
  counter := 0
  shared := shared
  pc := .initCallback
  own := none
  threads := fun _ => .idle
  queued := []
  executed := []
  completed := []
  due := []
  quitDone := false

/-- `pendingFunctors_.emplace_back(cb)` under the lock. -/
def emplaceBack (s : State F T) (functor : F) : State F T :=
  { s with pendingFunctors := s.pendingFunctors ++ [functor], queued := s.queued ++ [functor] }

def wakeup (s : State F T) : State F T := { s with counter := s.counter + 1 }

def handleRead (s : State F T) : State F T := { s with counter := 0 }

/-- `quit_=true`; all calls that have completed by now are due, those of an
earlier `quit` among them. -/
def storeQuit (s : State F T) : State F T := { s with quit := true, due := s.completed }

/-- The next statement of the loop's thread; `ready` is what `poll` reports
about the eventfd. -/
def advance (s : State F T) (ready : Bool) : State F T :=
  match s.pc with
  | .initCallback => { s with pc := .publish }
  | .publish => { s with shared := true, pc := .setLooping }
  | .setLooping => { s with looping := true, pc := .resetQuit }
  | .resetQuit => { s with quit := false, pc := .testQuit }
  | .testQuit => { s with pc := if s.quit then .clearLooping else .poll }
  | .poll => { s with pc := .dispatch ready }
  | .dispatch true => { s.handleRead with pc := .dispatch false }
  | .dispatch false => { s with pc := .setCalling }
  | .setCalling => { s with callingPendingFunctors := true, pc := .swap }
  | .swap => { s with pendingFunctors := [], pc := .batch s.pendingFunctors }
  | .batch [] => { s with callingPendingFunctors := false, pc := .testQuit }
  | .batch (functor :: functors) => { s with pc := .running functor functors }
  | .running functor functors =>
      { s with executed := s.executed ++ [functor], pc := .batch functors }
  | .clearLooping => { s with looping := false, pc := .returned }
  | .returned | .finished => { s with pc := .finished }

/-- The end of a `queueInLoop` on the loop's own thread. -/
def finishOwn (s : State F T) : State F T :=
  match s.own with
  | some index =>
      let s := if s.callingPendingFunctors then s.wakeup else s
      { s with own := none, completed := index :: s.completed }
  | none => s

/-- The end of a `queueInLoop` on another thread. -/
def finishPush [DecidableEq T] (s : State F T) (t : T) : State F T :=
  match s.threads t with
  | .pushed index =>
      { s.wakeup with
        completed := index :: s.completed
        threads := Function.update s.threads t .idle }
  | _ => s

end State

/-- The steps possible in a state. Nobody uses the loop once its thread has
finished; a `join` returns only then. -/
def Enabled (s : State F T) : LoopAction F T → Prop
  | .advance ready => s.own = none ∧ s.pc.alive = true ∧
      (s.pc.polling = true → ready = true → 0 < s.counter)
  | .selfPush _ | .selfQuit => s.own = none ∧ s.pc.inUserCode = true
  | .selfWake => s.own.isSome = true
  | .push t _ | .quit t => s.shared = true ∧ s.pc.alive = true ∧ s.threads t = .idle
  | .wake t => s.pc.alive = true ∧ (s.threads t).hasPushed = true
  | .quitWake t => s.pc.alive = true ∧ s.threads t = .quitStored
  | .join t => s.pc.alive = false ∧ s.threads t = .idle

instance (s : State F T) : (a : LoopAction F T) → Decidable (Enabled s a)
  | .advance _ => inferInstanceAs (Decidable (_ ∧ _ ∧ _))
  | .selfPush _ | .selfQuit => inferInstanceAs (Decidable (_ ∧ _))
  | .selfWake => inferInstanceAs (Decidable (_ = _))
  | .push _ _ | .quit _ => inferInstanceAs (Decidable (_ ∧ _ ∧ _))
  | .wake _ | .quitWake _ | .join _ => inferInstanceAs (Decidable (_ ∧ _))

def after [DecidableEq T] (s : State F T) : LoopAction F T → State F T
  | .advance ready => s.advance ready
  | .selfPush functor => { s.emplaceBack functor with own := some s.queued.length }
  | .selfWake => s.finishOwn
  | .selfQuit => { s.storeQuit with quitDone := true }
  | .push t functor =>
      { s.emplaceBack functor with
        threads := Function.update s.threads t (.pushed s.queued.length) }
  | .wake t => s.finishPush t
  | .quit t => { s.storeQuit with threads := Function.update s.threads t .quitStored }
  | .quitWake t =>
      { s.wakeup with threads := Function.update s.threads t .idle, quitDone := true }
  | .join t => { s with threads := Function.update s.threads t .joined }

def step [DecidableEq T] (s : State F T) (a : LoopAction F T) : Option (State F T) :=
  if Enabled s a then some (after s a) else none

theorem step_eq_some [DecidableEq T] {s t : State F T} {a : LoopAction F T} :
    step s a = some t ↔ Enabled s a ∧ after s a = t := by
  simp only [step, Option.ite_none_right_eq_some, Option.some.injEq]

/-- The order of the statements, whatever they find. -/
inductive Pc.Follows : Pc F → Pc F → Prop
  | initCallback : Follows .initCallback .publish
  | publish : Follows .publish .setLooping
  | setLooping : Follows .setLooping .resetQuit
  | resetQuit : Follows .resetQuit .testQuit
  | quitFound : Follows .testQuit .clearLooping
  | quitNotFound : Follows .testQuit .poll
  | poll (ready : Bool) : Follows .poll (.dispatch ready)
  | handleRead : Follows (.dispatch true) (.dispatch false)
  | dispatched : Follows (.dispatch false) .setCalling
  | setCalling : Follows .setCalling .swap
  | swap (functors : List F) : Follows .swap (.batch functors)
  | batchEnd : Follows (.batch []) .testQuit
  | functorCall (functor : F) (functors : List F) :
      Follows (.batch (functor :: functors)) (.running functor functors)
  | functorReturn (functor : F) (functors : List F) :
      Follows (.running functor functors) (.batch functors)
  | clearLooping : Follows .clearLooping .returned
  | returned : Follows .returned .finished
  | finished : Follows .finished .finished

theorem advance_follows (s : State F T) (ready : Bool) : s.pc.Follows (s.advance ready).pc := by
  unfold State.advance
  cases s.pc with
  | testQuit =>
      cases s.quit
      · exact .quitNotFound
      · exact .quitFound
  | dispatch wakeup =>
      cases wakeup
      · exact .dispatched
      · exact .handleRead
  | batch functors =>
      cases functors
      · exact .batchEnd
      · exact .functorCall _ _
  | initCallback | publish | setLooping | resetQuit | poll | setCalling | swap
  | running functor functors | clearLooping | returned | finished => constructor

/-- What the loop's own statements leave alone. -/
structure SameCalls (s t : State F T) : Prop where
  own : t.own = s.own
  threads : t.threads = s.threads
  queued : t.queued = s.queued
  completed : t.completed = s.completed
  due : t.due = s.due
  quitDone : t.quitDone = s.quitDone

theorem advance_sameCalls (s : State F T) (ready : Bool) : SameCalls s (s.advance ready) := by
  unfold State.advance
  split <;> exact ⟨rfl, rfl, rfl, rfl, rfl, rfl⟩

/-- A statement of the loop's own thread. -/
def isAdvance : LoopAction F T → Bool
  | .advance _ => true
  | _ => false

theorem advance_or_other (a : LoopAction F T) :
    (∃ ready, a = .advance ready) ∨ isAdvance a = false := by
  cases a with
  | advance ready => exact .inl ⟨ready, rfl⟩
  | selfPush _ | selfWake | selfQuit | push _ _ | wake _ | quit _ | quitWake _ | join _ =>
      exact .inr rfl

/-- What the end of a `queueInLoop` leaves alone. -/
structure SameQueue (s t : State F T) : Prop where
  pc : t.pc = s.pc
  shared : t.shared = s.shared
  pendingFunctors : t.pendingFunctors = s.pendingFunctors
  queued : t.queued = s.queued
  executed : t.executed = s.executed

theorem finishOwn_same (s : State F T) :
    SameQueue s s.finishOwn ∧ s.finishOwn.threads = s.threads := by
  unfold State.finishOwn
  cases s.own with
  | none => exact ⟨⟨rfl, rfl, rfl, rfl, rfl⟩, rfl⟩
  | some index =>
      dsimp only
      split_ifs <;> exact ⟨⟨rfl, rfl, rfl, rfl, rfl⟩, rfl⟩

section Threads
variable [DecidableEq T]

theorem finishPush_same (s : State F T) (t : T) : SameQueue s (s.finishPush t) ∧
    (s.finishPush t).own = s.own ∧ ∀ u, u ≠ t → (s.finishPush t).threads u = s.threads u := by
  unfold State.finishPush
  cases s.threads t with
  | pushed index =>
      exact ⟨⟨rfl, rfl, rfl, rfl, rfl⟩, rfl, fun _ hu => Function.update_of_ne hu ..⟩
  | idle | quitStored | joined => exact ⟨⟨rfl, rfl, rfl, rfl, rfl⟩, rfl, fun _ _ => rfl⟩

/-- A step of another kind leaves the loop's thread where it is. -/
theorem other_step {s t : State F T} {a : LoopAction F T} (ht : step s a = some t)
    (ha : isAdvance a = false) :
    t.pc = s.pc ∧ t.executed = s.executed ∧ s.queued <+: t.queued := by
  obtain ⟨-, rfl⟩ := step_eq_some.mp ht
  cases a with
  | advance ready => cases ha
  | selfPush functor => exact ⟨rfl, rfl, List.prefix_append ..⟩
  | push u functor => exact ⟨rfl, rfl, List.prefix_append ..⟩
  | selfWake =>
      have hsame := (finishOwn_same s).1
      exact ⟨hsame.pc, hsame.executed, hsame.queued ▸ List.prefix_refl _⟩
  | wake u =>
      have hsame := (finishPush_same s u).1
      exact ⟨hsame.pc, hsame.executed, hsame.queued ▸ List.prefix_refl _⟩
  | selfQuit | quit u | quitWake u | join u => exact ⟨rfl, rfl, List.prefix_refl _⟩

theorem advance_eq {s t : State F T} {ready : Bool} (ht : step s (.advance ready) = some t) :
    t = s.advance ready := (step_eq_some.mp ht).2.symm

end Threads

end Netmux.EventLoop
