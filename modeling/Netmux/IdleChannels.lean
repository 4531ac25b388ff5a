import Netmux.ChannelTeardown

/-!
# Channels without interest

A channel whose mask is empty should not be watched: the kernel reports hang-ups
and errors for any descriptor it watches, whatever the mask. `updateChannel` takes
a channel with an empty mask out of the interest set if it is added. A new one or
a deleted one it puts in, without a look at the mask, so that a second
`disableAll()` or one before any registration starts the watching.
-/
namespace Netmux.IdleChannels
open ActionRuns ChannelPoller ChannelTeardown

variable {P : Type} [DecidableEq P]

/-- No channel without interest has an entry in the interest set. -/
def Unwatched (s : Registry P) : Prop :=
  ∀ c, (s.channels c).events = kNoneEvent → s.poller.interest (s.channels c).fd = none

/-- An operation that leaves its channel without interest finds it added. -/
def KeepsOut (s : Registry P) (a : Action P) : Prop :=
  a.mask (s.channels a.channel).events = kNoneEvent → (s.channels a.channel).status = .kAdded

instance (s : Registry P) (a : Action P) : Decidable (KeepsOut s a) :=
  inferInstanceAs (Decidable (_ → _))

omit [DecidableEq P] in
/-- The kernel watches the added channels. -/
theorem unwatched_iff {fd : P → ℕ} {s : Registry P} (h : Registered fd s) :
    Unwatched s ↔ ∀ c, (s.channels c).events = kNoneEvent → (s.channels c).status ≠ .kAdded := by
  apply forall_congr'
  intro c
  rw [(h.tracked c).interest]
  simp only [ite_eq_right_iff, reduceCtorEq, imp_false]

theorem act_other (s : Registry P) (a : Action P) {c : P} (hne : c ≠ a.channel) :
    (act s a).channels c = s.channels c := by
  rw [act_eq, s.put_of_ne _ hne]

/-- The operated channel has the new mask, and is left deleted only if it was
added and the mask is empty. -/
theorem act_self (s : Registry P) (a : Action P) :
    ((act s a).channels a.channel).events = a.mask (s.channels a.channel).events ∧
      (((act s a).channels a.channel).status = .kAdded ↔
        (a.mask (s.channels a.channel).events = kNoneEvent →
          (s.channels a.channel).status ≠ .kAdded)) := by
  have hadded := EPollPoller.updateChannel_added_iff epollCtl s.poller
    ((s.channels a.channel).withEvents (a.mask (s.channels a.channel).events))
  obtain ⟨status, hc, -⟩ := EPollPoller.updateChannel_channel epollCtl s.poller
    ((s.channels a.channel).withEvents (a.mask (s.channels a.channel).events))
  have hself : (act s a).channels a.channel = (s.poller.updateChannel epollCtl
      ((s.channels a.channel).withEvents (a.mask (s.channels a.channel).events))).2 := by
    rw [act_eq, s.put_self]
  rw [hself]
  refine ⟨?_, hadded⟩
  rw [hc]
  rfl

/-- The operated channel is the only one that can begin to be watched. -/
theorem act_unwatched_iff {fd : P → ℕ} (hfd : Function.Injective fd) {s : Registry P}
    (h : Registered fd s) (hs : Unwatched s) (a : Action P) :
    Unwatched (act s a) ↔ KeepsOut s a := by
  obtain ⟨hevents, hadded⟩ := act_self s a
  rw [unwatched_iff h] at hs
  rw [unwatched_iff (act_registered hfd s a h)]
  constructor
  · intro hall hempty
    by_contra hold
    exact hall a.channel (hevents.trans hempty) (hadded.mpr fun _ => hold)
  · intro hkeep c hempty
    by_cases hne : c = a.channel
    · subst hne
      have hmask := hevents.symm.trans hempty
      intro hnew
      exact hadded.mp hnew hmask (hkeep hmask)
    · rw [act_other s a hne] at hempty ⊢
      exact hs c hempty

/-- For every family of channels with distinct descriptors and every sequence of
operations, no channel without interest is watched at any point exactly if each
operation that leaves an empty mask finds its channel added. -/
theorem unwatched_throughout_iff {fd : P → ℕ} (hfd : Function.Injective fd)
    (actions : List (Action P)) :
    Throughout step Unwatched (fresh fd) actions ↔ Meets step KeepsOut (fresh fd) actions := by
  refine throughout_iff_meets_of_total ?_ actions (fresh_registered fd) (fun _ _ => rfl)
  intro s a hr
  exact ⟨act s a, rfl, act_registered hfd s a hr, fun hu => act_unwatched_iff hfd hr hu a⟩

/-- A channel is switched on and off, as by `handleClose`. -/
def closeOnce : List (Action ℕ) := [.enableReading 0, .disableAll 0]

theorem unwatched_throughout_iff_closeOnce :
    Throughout step Unwatched (fresh id) closeOnce ↔ Meets step KeepsOut (fresh id) closeOnce :=
  unwatched_throughout_iff Function.injective_id closeOnce

example : Meets step KeepsOut (fresh id) closeOnce := by decide

/-- A second `disableAll()` adds the channel back, and one on a channel that was
never enabled registers it. -/
theorem disableAll_watches :
    ¬ Throughout step Unwatched (fresh id) (closeOnce ++ [.disableAll (0 : ℕ)]) ∧
      ¬ Throughout step Unwatched (fresh id) [.disableAll (0 : ℕ)] := by
  constructor
  · intro h
    have hempty := (((h.2 _ rfl).2 _ rfl).2 _ rfl) 0 rfl
    revert hempty
    decide
  · intro h
    have hempty := (h.2 _ rfl) 0 rfl
    revert hempty
    decide

end Netmux.IdleChannels
