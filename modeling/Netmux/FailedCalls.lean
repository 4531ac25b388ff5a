import Netmux.PollerRegistration

/-!
# When `epoll_ctl` fails

Calls of the poller on channels with distinct descriptors, in which any single
`epoll_ctl` may fail and change nothing. A failure is logged and the caller does
not hear of it. `updateChannel` has set the status before it adds and sets it
after it deletes, `removeChannel` sets it whatever happened: after a failed `ADD`
the channel counts as added and is not watched, after a failed `DEL` it is watched
and does not count as added. Only a failed `MOD` changes no status, and the next
one makes up for it.
-/
namespace Netmux.FailedCalls
open ActionRuns ChannelPoller ChannelTeardown PollerRegistration

variable {P : Type}

/-- A call of `EPollPoller`, on a channel whose mask has been set to `events`, and
whether the `epoll_ctl` it makes fails. -/
inductive Action (P : Type) where
  | updateChannel (c : P) (events : EventMask) (fails : Bool)
  | removeChannel (c : P) (fails : Bool)
  deriving DecidableEq, Repr

def Action.channel : Action P → P
  | .updateChannel c _ _ | .removeChannel c _ => c

/-- The kernel's answer, or a failure that leaves the set as it is. -/
def ctl (fails : Bool) : Ctl P := fun set operation fd event =>
  if fails then none else epollCtl set operation fd event

/-- The channel as the method gets it, and what the method makes of it. -/
def perform (s : Registry P) : Action P → EPollPoller P × Channel P
  | .updateChannel c events fails =>
      s.poller.updateChannel (ctl fails) ((s.channels c).withEvents events)
  | .removeChannel c fails => s.poller.removeChannel (ctl fails) (s.channels c)

/-- The status tells whether the descriptor is watched. -/
def Watched (p : EPollPoller P) (c : Channel P) : Prop :=
  c.status = .kAdded ↔ (p.interest c.fd).isSome = true

instance (p : EPollPoller P) (c : Channel P) : Decidable (Watched p c) :=
  inferInstanceAs (Decidable (_ ↔ _))

/-- The status is right, and a retry that the kernel serves brings the mask up to date. -/
structure Booked (p : EPollPoller P) (c : Channel P) : Prop where
  watched : Watched p c
  retried : (p.updateChannel epollCtl c).1.kernelMask c.fd = c.events

/-- A call that fails is a `MOD`, if one is made at all. -/
def FailsToModify (s : Registry P) : Action P → Prop
  | .updateChannel c events fails =>
      fails = true → updateCall ((s.channels c).withEvents events) = .EPOLL_CTL_MOD
  | .removeChannel c fails => fails = true → removeCall (s.channels c) = none

instance (s : Registry P) : (a : Action P) → Decidable (FailsToModify s a)
  | .updateChannel .. => inferInstanceAs (Decidable (_ → _))
  | .removeChannel .. => inferInstanceAs (Decidable (_ → _))

theorem update_fails (p : EPollPoller P) (operation : CtlOperation) (c : Channel P) :
    p.update (ctl true) operation c = p := rfl

/-- A served `updateChannel` leaves the kernel with the channel's mask, or with no
entry for a channel that is deleted. -/
theorem updateChannel_interest {p : EPollPoller P} {c : Channel P} (h : Watched p c) :
    (p.updateChannel epollCtl c).1.interest c.fd =
      if (p.updateChannel epollCtl c).2.status = .kAdded then some ⟨c.events, c.address⟩
      else none := by
  unfold Watched at h
  unfold EPollPoller.updateChannel
  cases hs : c.status with
  | kNew =>
      have hnone : p.interest c.fd = none := by simpa [hs] using h
      exact EPollPoller.update_add_interest _ (c.setStatus .kAdded) hnone
  | kDeleted =>
      have hnone : p.interest c.fd = none := by simpa [hs] using h
      exact EPollPoller.update_add_interest _ (c.setStatus .kAdded) hnone
  | kAdded =>
      have hsome : (p.interest c.fd).isSome = true := h.mp hs
      obtain ⟨e, he⟩ := Option.isSome_iff_exists.mp hsome
      by_cases hempty : c.isNonEvent = true
      · simp only [hempty, if_true, Channel.setStatus_status, reduceCtorEq, if_false]
        exact EPollPoller.update_del_interest _ _
      · simp only [hempty, if_false, Bool.false_eq_true, hs, if_true]
        exact EPollPoller.update_mod_interest p c he

/-- With a right status a retry does what is missing. -/
theorem booked_iff (p : EPollPoller P) (c : Channel P) : Booked p c ↔ Watched p c := by
  refine ⟨Booked.watched, fun h => ⟨h, ?_⟩⟩
  have hadded := EPollPoller.updateChannel_added_iff epollCtl p c
  unfold EPollPoller.kernelMask
  rw [updateChannel_interest h]
  split_ifs with hs
  · rfl
  · rw [hadded, Classical.not_imp] at hs
    exact hs.1.symm

/-- After a failed call status and set still agree exactly if the call was a `MOD`. -/
theorem updateChannel_fails {p : EPollPoller P} {c : Channel P} (h : Watched p c) :
    Watched (p.updateChannel (ctl true) c).1 (p.updateChannel (ctl true) c).2 ↔
      updateCall c = .EPOLL_CTL_MOD := by
  unfold Watched at h ⊢
  unfold EPollPoller.updateChannel updateCall
  cases hs : c.status with
  | kNew =>
      have hnone : p.interest c.fd = none := by simpa [hs] using h
      simp [update_fails, hnone]
  | kDeleted =>
      have hnone : p.interest c.fd = none := by simpa [hs] using h
      simp [update_fails, hnone]
  | kAdded =>
      have hsome : (p.interest c.fd).isSome = true := h.mp hs
      by_cases hempty : c.isNonEvent = true
      · simp [update_fails, hempty, hsome]
      · simp [update_fails, hempty, hs, hsome]

/-- `removeChannel` makes the channel new whatever becomes of its `DEL`. -/
theorem removeChannel_fails {p : EPollPoller P} {c : Channel P} (h : Watched p c) :
    Watched (p.removeChannel (ctl true) c).1 (p.removeChannel (ctl true) c).2 ↔
      removeCall c = none := by
  unfold Watched at h ⊢
  unfold EPollPoller.removeChannel removeCall
  by_cases hs : c.status = .kAdded
  · have hsome : (p.interest c.fd).isSome = true := h.mp hs
    simp [update_fails, hs, hsome]
  · have hnone : p.interest c.fd = none := by simpa [hs] using h
    simp [hs, hnone]

theorem updateChannel_serves {p : EPollPoller P} {c : Channel P} (h : Watched p c) :
    Watched (p.updateChannel epollCtl c).1 (p.updateChannel epollCtl c).2 := by
  obtain ⟨status, hc, -⟩ := EPollPoller.updateChannel_channel epollCtl p c
  have hfd : (p.updateChannel epollCtl c).2.fd = c.fd := by
    rw [hc]
    rfl
  unfold Watched
  rw [hfd, updateChannel_interest h]
  split_ifs with hs
  · exact iff_of_true hs rfl
  · exact iff_of_false hs Bool.false_ne_true

theorem removeChannel_serves {p : EPollPoller P} {c : Channel P} (h : Watched p c) :
    Watched (p.removeChannel epollCtl c).1 (p.removeChannel epollCtl c).2 := by
  unfold Watched at h ⊢
  unfold EPollPoller.removeChannel
  by_cases hs : c.status = .kAdded
  · simp [hs, EPollPoller.update_del_interest]
  · have hnone : p.interest c.fd = none := by simpa [hs] using h
    simp [hs, hnone]

/-- What a call makes of its own channel. -/
theorem perform_watched_iff {s : Registry P} (a : Action P)
    (h : Watched s.poller (s.channels a.channel)) :
    Watched (perform s a).1 (perform s a).2 ↔ FailsToModify s a := by
  cases a with
  | updateChannel c events fails =>
      have hset : Watched s.poller ((s.channels c).withEvents events) := h
      cases fails with
      | true => exact (updateChannel_fails hset).trans ⟨fun hm _ => hm, fun hm => hm rfl⟩
      | false =>
          exact iff_of_true (updateChannel_serves hset) fun hf => absurd hf Bool.false_ne_true
  | removeChannel c fails =>
      cases fails with
      | true => exact (removeChannel_fails h).trans ⟨fun hm _ => hm, fun hm => hm rfl⟩
      | false => exact iff_of_true (removeChannel_serves h) fun hf => absurd hf Bool.false_ne_true

/-- A failed call leaves the interest set. -/
theorem updateChannel_fails_interest (p : EPollPoller P) (c : Channel P) :
    (p.updateChannel (ctl true) c).1.interest = p.interest := by
  unfold EPollPoller.updateChannel
  cases c.status with
  | kNew => rfl
  | kDeleted => rfl
  | kAdded =>
      dsimp only
      split_ifs <;> rfl

theorem removeChannel_fails_interest (p : EPollPoller P) (c : Channel P) :
    (p.removeChannel (ctl true) c).1.interest = p.interest := by
  unfold EPollPoller.removeChannel
  dsimp only
  split_ifs <;> rfl

/-- No other descriptor is touched. -/
theorem perform_of_ne (s : Registry P) (a : Action P) {fd : ℕ}
    (h : fd ≠ (s.channels a.channel).fd) : (perform s a).1.interest fd = s.poller.interest fd := by
  cases a with
  | updateChannel c events fails =>
      cases fails with
      | true => exact congrFun (updateChannel_fails_interest _ _) fd
      | false =>
          exact (EPollPoller.updateChannel_of_ne s.poller ((s.channels c).withEvents events) h).2
  | removeChannel c fails =>
      cases fails with
      | true => exact congrFun (removeChannel_fails_interest _ _) fd
      | false => exact (EPollPoller.removeChannel_of_ne s.poller (s.channels c) h).2

theorem perform_fd (s : Registry P) (a : Action P) :
    (perform s a).2.fd = (s.channels a.channel).fd := by
  cases a with
  | updateChannel c events fails =>
      obtain ⟨status, hc, -⟩ := EPollPoller.updateChannel_channel (ctl fails) s.poller
        ((s.channels c).withEvents events)
      show (s.poller.updateChannel (ctl fails) ((s.channels c).withEvents events)).2.fd = _
      rw [hc]
      rfl
  | removeChannel c fails => rfl

variable [DecidableEq P]

def act (s : Registry P) (a : Action P) : Registry P := s.put a.channel (perform s a)

def step (s : Registry P) (a : Action P) : Option (Registry P) := some (act s a)

omit [DecidableEq P] in
theorem fresh_booked (fd : P → ℕ) (c : P) : Booked (fresh fd).poller ((fresh fd).channels c) := by
  rw [booked_iff]
  exact iff_of_false Status.noConfusion Bool.false_ne_true

theorem act_descriptor {fd : P → ℕ} {s : Registry P} (h : ∀ c, (s.channels c).fd = fd c)
    (a : Action P) (c : P) : ((act s a).channels c).fd = fd c := by
  by_cases hne : c = a.channel
  · subst hne
    rw [act, s.put_self, perform_fd, h]
  · rw [act, s.put_of_ne _ hne, h]

/-- A call keeps the books exactly if it does not fail to add or delete. -/
theorem act_booked_iff {fd : P → ℕ} (hfd : Function.Injective fd) {s : Registry P}
    (hd : ∀ c, (s.channels c).fd = fd c) (h : ∀ c, Booked s.poller (s.channels c))
    (a : Action P) :
    (∀ c, Booked (act s a).poller ((act s a).channels c)) ↔ FailsToModify s a := by
  have hself : (act s a).channels a.channel = (perform s a).2 := s.put_self ..
  rw [← perform_watched_iff a (h a.channel).watched, ← hself, ← booked_iff]
  refine ⟨fun hall => hall a.channel, fun hbooked c => ?_⟩
  by_cases hne : c = a.channel
  · exact hne ▸ hbooked
  · have hother : (act s a).channels c = s.channels c := s.put_of_ne _ hne
    have hfds : (s.channels c).fd ≠ (s.channels a.channel).fd := by
      rw [hd, hd]
      exact hfd.ne hne
    have hwatched := (h c).watched
    rw [booked_iff, hother]
    unfold Watched at hwatched ⊢
    have hset : (act s a).poller.interest (s.channels c).fd =
        s.poller.interest (s.channels c).fd := perform_of_ne s a hfds
    rwa [hset]

/-- For every family of channels with distinct descriptors and every sequence of
calls, statuses and interest set agree after every call, and a retry brings the
mask up to date, exactly if every call that fails is a `MOD`. -/
theorem booked_throughout_iff {fd : P → ℕ} (hfd : Function.Injective fd)
    (actions : List (Action P)) :
    Throughout step (fun s => ∀ c, Booked s.poller (s.channels c)) (fresh fd) actions ↔
      Meets step FailsToModify (fresh fd) actions := by
  have hfresh : ∀ c, ((fresh fd).channels c).fd = fd c := fun _ => rfl
  have hstep : ∀ s a, (∀ c, (s.channels c).fd = fd c) →
      ∃ t, step s a = some t ∧ (∀ c, (t.channels c).fd = fd c) ∧
        ((∀ c, Booked s.poller (s.channels c)) →
          ((∀ c, Booked t.poller (t.channels c)) ↔ FailsToModify s a)) :=
    fun s a hd => ⟨act s a, rfl, act_descriptor hd a, fun hb => act_booked_iff hfd hd hb a⟩
  exact throughout_iff_meets_of_total hstep actions hfresh (fresh_booked fd)

/-- A change of the mask fails and is made again. -/
def modifiedTwice : List (Action ℕ) :=
  [.updateChannel 0 kReadEvent false, .updateChannel 0 kWriteEvent true,
    .updateChannel 0 kWriteEvent false]

theorem booked_throughout_iff_modifiedTwice :
    Throughout step (fun s => ∀ c, Booked s.poller (s.channels c)) (fresh id) modifiedTwice ↔
      Meets step FailsToModify (fresh id) modifiedTwice :=
  booked_throughout_iff Function.injective_id modifiedTwice

example : Meets step FailsToModify (fresh id) modifiedTwice := by decide

/-- A channel whose registration failed counts as added, and the retry does not
register it either. -/
theorem failed_add_stays_out :
    ¬ Throughout step (fun s => ∀ c, Booked s.poller (s.channels c)) (fresh id)
        [.updateChannel (0 : ℕ) kReadEvent true] ∧
      ∃ s, run step (fresh id) [.updateChannel (0 : ℕ) kReadEvent true,
          .updateChannel 0 kReadEvent false] = some s ∧
        (s.channels 0).status = .kAdded ∧ s.poller.kernelMask 0 = kNoneEvent := by
  constructor
  · intro h
    have hwatched := ((h.2 _ rfl) 0).watched
    revert hwatched
    decide
  · exact ⟨_, rfl, rfl, rfl⟩

end Netmux.FailedCalls
