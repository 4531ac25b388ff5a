import Netmux.CriticalSections
import Netmux.FunctorHistory

/-!
# The lock of the functor queue

`mutex_` guards `pendingFunctors_`: `queueInLoop` appends under it and
`doPendingFunctors` swaps under it. Neither the append nor the swap is one memory
access, so the loop is taken here one access at a time: a thread locks, reads the
list, writes its own version of it back, and unlocks, while the others go on.

Every such interleaving is one of the whole steps of the loop, so what holds of
those holds of the accesses. The functors run after the lock has been released
and may queue functors themselves; a thread that holds the lock waits for nobody.
-/
namespace Netmux.QueueLocking
open ActionRuns EventLoop FunctorHistory CriticalSections

variable {F T : Type}

/-- The thread that takes a step; the loop's own has no number. -/
def threadOf : LoopAction F T → Option T
  | .advance _ | .selfPush _ | .selfWake | .selfQuit => none
  | .push t _ | .wake t | .quit t | .quitWake t | .join t => some t

/-- The steps that hold `mutex_`: both appends and the swap. -/
def locked (s : State F T) : LoopAction F T → Bool
  | .push _ _ | .selfPush _ => true
  | .advance _ =>
      match s.pc with
      | .swap => true
      | _ => false
  | .selfWake | .selfQuit | .wake _ | .quit _ | .quitWake _ | .join _ => false

section Threads
variable [DecidableEq T]

/-- A step without the lock leaves the list alone. -/
theorem step_unlocked (s : State F T) (a : LoopAction F T) (t : State F T)
    (h : locked s a = false) (ht : step s a = some t) : t.pendingFunctors = s.pendingFunctors := by
  obtain ⟨-, rfl⟩ := step_eq_some.mp ht
  cases a with
  | advance ready =>
      show (s.advance ready).pendingFunctors = _
      unfold State.advance
      cases hpc : s.pc with
      | swap => simp [locked, hpc] at h
      | dispatch wakeup => cases wakeup <;> rfl
      | batch functors => cases functors <;> rfl
      | initCallback | publish | setLooping | resetQuit | testQuit | poll | setCalling
      | running functor functors | clearLooping | returned | finished => rfl
  | push _ _ | selfPush _ => cases h
  | selfWake => exact (finishOwn_same s).1.pendingFunctors
  | wake u => exact (finishPush_same s u).1.pendingFunctors
  | selfQuit | quit u | quitWake u | join u => rfl

/-- The loop and its threads around the list that they share. -/
def sharing : Sharing (State F T) (LoopAction F T) (Option T) (List F) where
  step := step
  get := State.pendingFunctors
  set s functors := { s with pendingFunctors := functors }
  thread := threadOf
  guarded := locked
  set_get _ := rfl
  frame := step_unlocked

/-- One access to the list, or a whole step that does without. -/
abbrev accessStep : Sections (State F T) (LoopAction F T) (Option T) (List F) →
    SectionAction (LoopAction F T) (Option T) →
    Option (Sections (State F T) (LoopAction F T) (Option T) (List F)) := sectionStep sharing

/-- Every interleaving of the accesses leads to a state that the whole steps lead
to, each of them at the place of its write. -/
theorem accesses_refine (shared : Bool)
    {accesses : List (SectionAction (LoopAction F T) (Option T))}
    {s : Sections (State F T) (LoopAction F T) (Option T) (List F)}
    (h : run accessStep (start (State.create shared)) accesses = some s) :
    run step (State.create shared) (wholeActions sharing (start (State.create shared)) accesses) =
      some s.state :=
  sections_refine (exclusive_start _) h

end Threads

/-- The loop's thread takes a step between the read and the write of a thread. -/
def overlapping : List (SectionAction (LoopAction ℕ Bool) (Option Bool)) :=
  [.lock (.push true 1), .load (some true), .plain (.advance false), .store (some true),
    .unlock (some true), .lock (.push false 2), .plain (.wake true), .load (some false),
    .store (some false)]

theorem accesses_refine_overlapping :
    ∃ s, run accessStep (start (State.create true)) overlapping = some s ∧
      run step (State.create true)
        (wholeActions sharing (start (State.create true)) overlapping) = some s.state :=
  ⟨_, rfl, accesses_refine true rfl⟩

section Threads
variable [DecidableEq T]

/-- The functors are executed once each and in the order in which the appends
were written, whatever happens between the accesses. -/
theorem accesses_in_order (shared : Bool)
    (accesses : List (SectionAction (LoopAction F T) (Option T))) :
    Throughout accessStep (fun s => InOrder s.state) (start (State.create shared)) accesses :=
  throughout_sections (m := sharing)
    (fun _ _ h => run_preserves inOrder_step (inOrder_create shared) h) accesses

/-- A step that takes the lock is possible as long as the loop exists. -/
structure Possible (s : State F T) (a : LoopAction F T) : Prop where
  locked : locked s a = true
  enabled : s.pc.alive = true → Enabled s a

/-- What the steps of one thread leave alone of what those of another look at. -/
structure Elsewhere (b : LoopAction F T) (s t : State F T) : Prop where
  pc : threadOf b ≠ none → t.pc = s.pc
  own : threadOf b ≠ none → t.own = s.own
  threads : ∀ u, threadOf b ≠ some u → t.threads u = s.threads u
  shared : s.shared = true → t.shared = true
  alive : t.pc.alive = true → s.pc.alive = true

theorem step_elsewhere {s t : State F T} {b : LoopAction F T} (ht : step s b = some t) :
    Elsewhere b s t := by
  have halive : t.pc.alive = true → s.pc.alive = true := by
    rcases advance_or_other b with ⟨ready, rfl⟩ | hb
    · exact fun _ => (step_eq_some.mp ht).1.2.1
    · rw [(other_step ht hb).1]
      exact id
  obtain ⟨-, rfl⟩ := step_eq_some.mp ht
  cases b with
  | advance ready =>
      refine ⟨fun hne => absurd rfl hne, fun hne => absurd rfl hne, fun u _ => ?_, ?_, halive⟩
      · exact congrFun (advance_sameCalls s ready).threads u
      · show s.shared = true → (s.advance ready).shared = true
        unfold State.advance
        split <;> simp [State.handleRead]
  | selfPush functor | selfQuit =>
      exact ⟨fun hne => absurd rfl hne, fun hne => absurd rfl hne, fun _ _ => rfl, id, halive⟩
  | selfWake =>
      obtain ⟨hsame, hthreads⟩ := finishOwn_same s
      exact ⟨fun hne => absurd rfl hne, fun hne => absurd rfl hne, fun u _ => congrFun hthreads u,
        fun h => hsame.shared.trans h, halive⟩
  | wake v =>
      obtain ⟨hsame, hown, hthreads⟩ := finishPush_same s v
      exact ⟨fun _ => hsame.pc, fun _ => hown, fun u hu => hthreads u fun he => hu (he ▸ rfl),
        fun h => hsame.shared.trans h, halive⟩
  | push v functor | quit v | quitWake v | join v =>
      refine ⟨fun _ => rfl, fun _ => rfl, fun u hu => ?_, id, halive⟩
      have hne : u ≠ v := fun he => hu (he ▸ rfl)
      exact Function.update_of_ne hne ..

/-- No other thread takes the action of a section away. -/
theorem possible_step (s : State F T) (a b : LoopAction F T) (t : State F T) (h : Possible s a)
    (hne : threadOf b ≠ threadOf a) (ht : step s b = some t) : Possible t a := by
  have helse := step_elsewhere ht
  have hlocked := h.locked
  cases a with
  | push u functor =>
      refine ⟨rfl, fun halive => ?_⟩
      obtain ⟨hshared, -, hidle⟩ := h.enabled (helse.alive halive)
      exact ⟨helse.shared hshared, halive, (helse.threads u hne).trans hidle⟩
  | selfPush functor =>
      refine ⟨rfl, fun halive => ?_⟩
      obtain ⟨hown, huser⟩ := h.enabled (helse.alive halive)
      exact ⟨(helse.own hne).trans hown, (congrArg Pc.inUserCode (helse.pc hne)).trans huser⟩
  | advance ready =>
      have hswap : s.pc = .swap := by
        cases hpc : s.pc <;> simp_all [locked]
      have hpc : t.pc = .swap := (helse.pc hne).trans hswap
      refine ⟨by simp [locked, hpc], fun halive => ?_⟩
      obtain ⟨hown, -, -⟩ := h.enabled (helse.alive halive)
      refine ⟨(helse.own hne).trans hown, halive, ?_⟩
      intro hpoll
      simp [hpc, Pc.polling] at hpoll
  | selfWake | selfQuit | wake _ | quit _ | quitWake _ | join _ => cases hlocked

/-- Actions under way stay possible, and who has entered holds the lock. -/
theorem step_orderly
    (s : Sections (State F T) (LoopAction F T) (Option T) (List F))
    (a : SectionAction (LoopAction F T) (Option T))
    (t : Sections (State F T) (LoopAction F T) (Option T) (List F))
    (h : Exclusive sharing s ∧ Begun sharing Possible s) (ht : accessStep s a = some t) :
    Exclusive sharing t ∧ Begun sharing Possible t := by
  refine ⟨step_exclusive s a t h.1 ht, step_begun ?_ possible_step h.1 h.2 ht⟩
  intro s a hlocked hpossible
  obtain ⟨t, ht⟩ := Option.isSome_iff_exists.mp hpossible
  exact ⟨hlocked, fun _ => (step_eq_some.mp ht).1⟩

/-- Nobody waits for the lock for ever: in every state of every interleaving in
which the loop exists, the thread that holds the lock releases it by its own next
accesses, of which there are at most three. -/
theorem lock_released (shared : Bool)
    (accesses : List (SectionAction (LoopAction F T) (Option T))) :
    Throughout accessStep (fun s => s.state.pc.alive = true → ∀ i, s.holder = some i →
      (remaining i (s.phase i)).length ≤ 3 ∧
        ∃ t, run accessStep s (remaining i (s.phase i)) = some t ∧ t.holder = none)
      (start (State.create shared)) accesses := by
  have hstart : Exclusive sharing (start (State.create shared : State F T)) ∧
      Begun sharing Possible (start (State.create shared : State F T)) := by
    refine ⟨exclusive_start _, ?_⟩
    intro i a hi
    cases hi
  refine (throughout_of_step step_orderly accesses hstart).imp ?_
  intro s hs halive i hi
  refine ⟨?_, hs.1.releases hi ?_⟩
  · cases s.phase i <;> simp [remaining]
  · intro a ha
    have henabled := (hs.2 i a ha).2.enabled halive
    exact Option.isSome_iff_exists.mpr ⟨after s.state a, step_eq_some.mpr ⟨henabled, rfl⟩⟩

end Threads

end Netmux.QueueLocking
