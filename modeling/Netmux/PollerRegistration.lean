import Netmux.ChannelTeardown
import Mathlib.Logic.Nontrivial.Basic

/-!
# The three records of a registration

A family of channels with distinct descriptors on one poller, under the
operations of `Channel` and the poller's own `removeChannel`, in any order.
After every call status, hash and interest set say the same of every channel,
and no `epoll_ctl` of the run fails.

Which `epoll_ctl` a method makes is read off the channel before the call:
`updateCall` and `removeCall`. Over every kernel, the methods leave the outcome of
that call and nothing else, so that no call fails exactly if it makes no difference
what a failing one would leave.
-/
namespace Netmux.PollerRegistration
open ActionRuns ChannelPoller ChannelTeardown

variable {P : Type}

/-- An operation of a channel, which ends in `EPollPoller::updateChannel`, or
`EPollPoller::removeChannel`. -/
inductive Action (P : Type) where
  | channel (a : ChannelTeardown.Action P)
  | removeChannel (c : P)
  deriving DecidableEq, Repr

/-- The operation `updateChannel` passes to `epoll_ctl`. -/
def updateCall (c : Channel P) : CtlOperation :=
  match c.status with
  | .kNew | .kDeleted => .EPOLL_CTL_ADD
  | .kAdded => if c.isNonEvent then .EPOLL_CTL_DEL else .EPOLL_CTL_MOD

/-- The same for `removeChannel`, which need not call it. -/
def removeCall (c : Channel P) : Option CtlOperation :=
  if c.status = .kAdded then some .EPOLL_CTL_DEL else none

def attempt (set : InterestSet P) (operation : CtlOperation) (c : Channel P) :
    Option (InterestSet P) := epollCtl set operation c.fd ⟨c.events, c.address⟩

/-- The channel as `updateChannel` gets it. -/
def changed (s : Registry P) (a : ChannelTeardown.Action P) : Channel P :=
  (s.channels a.channel).withEvents (a.mask (s.channels a.channel).events)

/-- The `epoll_ctl` call an action makes. -/
def callOf (s : Registry P) : Action P → Option (CtlOperation × Channel P)
  | .channel a => some (updateCall (changed s a), changed s a)
  | .removeChannel c => (removeCall (s.channels c)).map (·, s.channels c)

/-- No `epoll_ctl` fails. -/
def Succeeds (s : Registry P) (a : Action P) : Prop :=
  ∀ call ∈ callOf s a, (attempt s.poller.interest call.1 call.2).isSome = true

theorem update_interest (ctl : Ctl P) (p : EPollPoller P) (operation : CtlOperation)
    (c : Channel P) : (p.update ctl operation c).interest =
      (ctl p.interest operation c.fd ⟨c.events, c.address⟩).getD p.interest := by
  unfold EPollPoller.update
  cases ctl p.interest operation c.fd ⟨c.events, c.address⟩ <;> rfl

/-- The interest set after `updateChannel` is what its `epoll_ctl` leaves. -/
theorem updateChannel_interest (ctl : Ctl P) (p : EPollPoller P) (c : Channel P) :
    (p.updateChannel ctl c).1.interest =
      (ctl p.interest (updateCall c) c.fd ⟨c.events, c.address⟩).getD p.interest := by
  unfold EPollPoller.updateChannel updateCall
  cases c.status with
  | kNew => exact update_interest ctl _ _ _
  | kDeleted => exact update_interest ctl _ _ _
  | kAdded =>
      dsimp only
      split_ifs
      · exact update_interest ctl _ _ _
      · exact update_interest ctl _ _ _

theorem removeChannel_interest (ctl : Ctl P) (p : EPollPoller P) (c : Channel P) :
    (p.removeChannel ctl c).1.interest =
      ((removeCall c).bind fun operation =>
        ctl p.interest operation c.fd ⟨c.events, c.address⟩).getD p.interest := by
  unfold EPollPoller.removeChannel removeCall
  split_ifs
  · exact update_interest ctl _ _ _
  · rfl

/-- The poller after an action, over any kernel. -/
def performed (ctl : Ctl P) (s : Registry P) : Action P → EPollPoller P
  | .channel a => (s.poller.updateChannel ctl (changed s a)).1
  | .removeChannel c => (s.poller.removeChannel ctl (s.channels c)).1

theorem performed_interest (ctl : Ctl P) (s : Registry P) (a : Action P) :
    (performed ctl s a).interest = ((callOf s a).bind fun call =>
      ctl s.poller.interest call.1 call.2.fd ⟨call.2.events, call.2.address⟩).getD
        s.poller.interest := by
  cases a with
  | channel a => exact updateChannel_interest ctl s.poller (changed s a)
  | removeChannel c =>
      rw [callOf, Option.bind_map]
      exact removeChannel_interest ctl s.poller (s.channels c)

/-- The kernel, except that a call it would refuse leaves this set. -/
def epollCtlOr (left : InterestSet P) : Ctl P := fun set operation fd event =>
  some ((epollCtl set operation fd event).getD left)

theorem isSome_iff_getD {α : Type} [Nontrivial α] (o : Option α) (a : α) :
    o.isSome = true ↔ ∀ b, o.getD b = o.getD a := by
  cases o with
  | some c => simp
  | none =>
      obtain ⟨b, hb⟩ := exists_ne a
      simp only [Option.isSome_none, Bool.false_eq_true, Option.getD_none, false_iff]
      exact fun hall => hb (hall b)

/-- No call fails exactly if the methods leave the same whatever a call that fails
would leave. -/
theorem succeeds_iff (s : Registry P) (a : Action P) : Succeeds s a ↔
    ∀ left, (performed (epollCtlOr left) s a).interest = (performed epollCtl s a).interest := by
  simp only [Succeeds, performed_interest]
  cases callOf s a with
  | none => simp
  | some call =>
      have hevent : Nonempty (EpollEvent P) := ⟨⟨call.2.events, call.2.address⟩⟩
      simp only [Option.mem_def, Option.some.injEq, forall_eq', Option.bind_some, epollCtlOr,
        Option.getD_some]
      exact isSome_iff_getD (attempt s.poller.interest call.1 call.2) s.poller.interest

/-- The calls are `ADD` for a descriptor not watched, and `MOD` or `DEL` for a
watched one. -/
theorem updateCall_succeeds {p : EPollPoller P} {c : Channel P} (h : Tracks p c)
    (events : EventMask) :
    (attempt p.interest (updateCall (c.withEvents events)) (c.withEvents events)).isSome =
      true := by
  have hi := h.interest
  unfold attempt updateCall epollCtl
  cases hs : c.status with
  | kNew =>
      rw [hs, if_neg (by decide)] at hi
      simp [hs, hi]
  | kDeleted =>
      rw [hs, if_neg (by decide)] at hi
      simp [hs, hi]
  | kAdded =>
      rw [hs, if_pos rfl] at hi
      simp only [Channel.withEvents_status, Channel.withEvents_fd, hs]
      split_ifs
      · simp [hi]
      · simp [hi]

theorem removeCall_succeeds {p : EPollPoller P} {c : Channel P} (h : Tracks p c)
    {operation : CtlOperation} (ho : removeCall c = some operation) :
    (attempt p.interest operation c).isSome = true := by
  have hi := h.interest
  unfold removeCall at ho
  split_ifs at ho with hs
  cases ho
  rw [if_pos hs] at hi
  unfold attempt epollCtl
  rw [hi]
  rfl

theorem registered_succeeds {fd : P → ℕ} {s : Registry P} (h : Registered fd s)
    (a : Action P) : Succeeds s a := by
  intro call hcall
  cases a with
  | channel a =>
      cases hcall
      exact updateCall_succeeds (h.tracked a.channel) _
  | removeChannel c =>
      obtain ⟨operation, ho, rfl⟩ := Option.map_eq_some_iff.mp hcall
      exact removeCall_succeeds (h.tracked c) ho

variable [DecidableEq P]

def act (s : Registry P) : Action P → Registry P
  | .channel a => ChannelTeardown.act s a
  | .removeChannel c => s.put c (s.poller.removeChannel epollCtl (s.channels c))

def step (s : Registry P) (a : Action P) : Option (Registry P) := some (act s a)

/-- What the records say of one channel. -/
structure Consistent (s : Registry P) (c : P) : Prop where
  hashed : s.poller.channelHash (s.channels c).fd = some c ↔ (s.channels c).status ≠ .kNew
  found : s.poller.hasChannel (s.channels c) = true ↔ (s.channels c).status ≠ .kNew
  watched : (s.poller.interest (s.channels c).fd).isSome = true ↔ (s.channels c).status = .kAdded
  registered : ∀ e, s.poller.interest (s.channels c).fd = some e →
    e.ptr = c ∧ e.events = (s.channels c).events

/-- The kernel is left with the outcome of the call the action makes. -/
theorem act_interest (s : Registry P) (a : Action P) :
    (act s a).poller.interest =
      ((callOf s a).bind fun call => attempt s.poller.interest call.1 call.2).getD
        s.poller.interest := by
  have hperformed : (act s a).poller = performed epollCtl s a := by
    cases a with
    | channel a =>
        rw [act, ChannelTeardown.act_eq]
        rfl
    | removeChannel c => rfl
  rw [hperformed]
  exact performed_interest epollCtl s a

theorem act_registered {fd : P → ℕ} (hfd : Function.Injective fd) (s : Registry P)
    (a : Action P) (h : Registered fd s) : Registered fd (act s a) := by
  cases a with
  | channel a => exact ChannelTeardown.act_registered hfd s a h
  | removeChannel c =>
      apply put_registered hfd h
      · exact h.descriptor c
      · exact h.pointer c
      · exact EPollPoller.removeChannel_tracks (h.tracked c)
      · intro n hn
        exact EPollPoller.removeChannel_of_ne _ _ (by rwa [h.descriptor])

theorem step_registered {fd : P → ℕ} (hfd : Function.Injective fd) (s : Registry P)
    (a : Action P) (t : Registry P) (h : Registered fd s) (ht : step s a = some t) :
    Registered fd t :=
  Option.some.inj ht ▸ act_registered hfd s a h

theorem registered_consistent {fd : P → ℕ} {s : Registry P} (h : Registered fd s) (c : P) :
    Consistent s c := by
  have ht := h.tracked c
  have hp := h.pointer c
  have hhash : s.poller.channelHash (s.channels c).fd = some c ↔ (s.channels c).status ≠ .kNew := by
    rw [ht.hash, hp]
    simp
  constructor
  · exact hhash
  · rw [EPollPoller.hasChannel, hp, beq_iff_eq]
    exact hhash
  · rw [ht.interest]
    simp
  · intro e he
    rw [ht.interest] at he
    split_ifs at he
    cases he
    exact ⟨hp, rfl⟩

/-- For every family of channels with distinct descriptors and every sequence of
calls, the three records agree on every channel at every point, and no call of
`epoll_ctl` fails. -/
theorem registration_consistent {fd : P → ℕ} (hfd : Function.Injective fd)
    (actions : List (Action P)) :
    Throughout step (fun s => ∀ c, Consistent s c) (fresh fd) actions ∧
      Meets step Succeeds (fresh fd) actions := by
  have hkeep := step_registered hfd
  constructor
  · exact (throughout_of_step hkeep actions (fresh_registered fd)).imp
      fun _ h c => registered_consistent h c
  · exact meets_of_step hkeep (fun _ a h => registered_succeeds h a) actions (fresh_registered fd)

/-- Two channels: one removed and added again with an empty mask, one switched
off and on. -/
def sampleCalls : List (Action ℕ) :=
  [.channel (.enableReading 0), .channel (.enableWriting 1), .removeChannel 0,
    .channel (.disableAll 1), .channel (.disableAll 0), .channel (.enableReading 1)]

theorem registration_consistent_sample :
    Throughout step (fun s => ∀ c, Consistent s c) (fresh id) sampleCalls ∧
      Meets step Succeeds (fresh id) sampleCalls :=
  registration_consistent Function.injective_id sampleCalls

end Netmux.PollerRegistration
