import Netmux.ActionRuns
import Netmux.ChannelPoller

/-!
# What `Channel::remove` leaves behind

A registry is a family of channels with their loop's poller. Every sequence of
interest changes and removals keeps hash, interest set and statuses in step.
Removal should leave the channel new, out of the hash and out of the interest
set. It never does: `EventLoop.removeChannel` hands the channel to
`updateChannel`, after which no channel is new and the hash still points to it.
-/
namespace Netmux.ChannelTeardown
open ActionRuns ChannelPoller

variable {P : Type}

structure Registry (P : Type) where
  channels : P → Channel P
  poller : EPollPoller P

inductive Action (P : Type) where
  | enableReading (c : P)
  | disenableReading (c : P)
  | enableWriting (c : P)
  | disenableWriting (c : P)
  | disableAll (c : P)
  | remove (c : P)
  deriving DecidableEq, Repr

def Action.channel : Action P → P
  | .enableReading c | .disenableReading c | .enableWriting c
  | .disenableWriting c | .disableAll c | .remove c => c

/-- Every channel constructed, none registered. -/
def fresh (fd : P → ℕ) : Registry P := ⟨fun c => Channel.create c (fd c), EPollPoller.create⟩

variable [DecidableEq P]

def Registry.put (s : Registry P) (c : P) (r : EPollPoller P × Channel P) : Registry P :=
  ⟨Function.update s.channels c r.2, r.1⟩

@[simp] theorem Registry.put_self (s : Registry P) (c : P) (r : EPollPoller P × Channel P) :
    (s.put c r).channels c = r.2 := Function.update_self ..

theorem Registry.put_of_ne (s : Registry P) {c d : P} (r : EPollPoller P × Channel P)
    (h : d ≠ c) : (s.put c r).channels d = s.channels d := Function.update_of_ne h ..

def act (s : Registry P) : Action P → Registry P
  | .enableReading c => s.put c ((s.channels c).enableReading epollCtl s.poller)
  | .disenableReading c => s.put c ((s.channels c).disenableReading epollCtl s.poller)
  | .enableWriting c => s.put c ((s.channels c).enableWriting epollCtl s.poller)
  | .disenableWriting c => s.put c ((s.channels c).disenableWriting epollCtl s.poller)
  | .disableAll c => s.put c ((s.channels c).disableAll epollCtl s.poller)
  | .remove c => s.put c ((s.channels c).remove epollCtl s.poller)

def step (s : Registry P) (a : Action P) : Option (Registry P) := some (act s a)

/-- The mask a channel carries when `update()` is reached. -/
def Action.mask (events : EventMask) : Action P → EventMask
  | .enableReading _ => events ||| kReadEvent
  | .disenableReading _ => events &&& ~~~kReadEvent
  | .enableWriting _ => events ||| kWriteEvent
  | .disenableWriting _ => events &&& ~~~kWriteEvent
  | .disableAll _ => kNoneEvent
  | .remove _ => events

/-- Every operation, removal included, ends in `EPollPoller::updateChannel`. -/
theorem act_eq (s : Registry P) (a : Action P) :
    act s a = s.put a.channel (s.poller.updateChannel epollCtl
      ((s.channels a.channel).withEvents (a.mask (s.channels a.channel).events))) := by
  cases a <;> rfl

/-- Distinct descriptors, right addresses, and all three records in step. -/
structure Registered (fd : P → ℕ) (s : Registry P) : Prop where
  descriptor : ∀ c, (s.channels c).fd = fd c
  pointer : ∀ c, (s.channels c).address = c
  tracked : ∀ c, Tracks s.poller (s.channels c)

omit [DecidableEq P] in
theorem fresh_registered (fd : P → ℕ) : Registered fd (fresh fd) :=
  ⟨fun _ => rfl, fun _ => rfl, fun c => tracks_create c (fd c)⟩

/-- Storing one channel back keeps the registry in step, if that channel is in
step with the poller and no other descriptor was touched. -/
theorem put_registered {fd : P → ℕ} (hfd : Function.Injective fd) {s : Registry P}
    (h : Registered fd s) {c : P} {r : EPollPoller P × Channel P} (hd : r.2.fd = fd c)
    (hp : r.2.address = c) (ht : Tracks r.1 r.2)
    (hframe : ∀ n ≠ fd c, r.1.channelHash n = s.poller.channelHash n ∧
      r.1.interest n = s.poller.interest n) : Registered fd (s.put c r) := by
  constructor
  · intro d
    by_cases hne : d = c
    · subst hne
      rw [s.put_self, hd]
    · rw [s.put_of_ne r hne]
      exact h.descriptor d
  · intro d
    by_cases hne : d = c
    · subst hne
      rw [s.put_self, hp]
    · rw [s.put_of_ne r hne]
      exact h.pointer d
  · intro d
    by_cases hne : d = c
    · subst hne
      rw [s.put_self]
      exact ht
    · obtain ⟨hhash, hint⟩ := hframe (fd d) (hfd.ne hne)
      have hold := h.tracked d
      rw [s.put_of_ne r hne]
      constructor
      · rw [← hold.hash, h.descriptor]
        exact hhash
      · rw [← hold.interest, h.descriptor]
        exact hint

theorem act_registered {fd : P → ℕ} (hfd : Function.Injective fd) (s : Registry P)
    (a : Action P) (h : Registered fd s) : Registered fd (act s a) := by
  obtain ⟨status, hc, -⟩ := EPollPoller.updateChannel_channel epollCtl s.poller
    ((s.channels a.channel).withEvents (a.mask (s.channels a.channel).events))
  rw [act_eq]
  apply put_registered hfd h
  · simp [hc, h.descriptor]
  · simp [hc, h.pointer]
  · exact EPollPoller.updateChannel_tracks (h.tracked a.channel) _
  · intro n hn
    exact EPollPoller.updateChannel_of_ne _ _ (by simpa [h.descriptor] using hn)

theorem reaches_registered {fd : P → ℕ} (hfd : Function.Injective fd) {s : Registry P}
    (h : Reaches step (fresh fd) s) : Registered fd s := by
  apply h.preserves _ (fresh_registered fd)
  intro s a t hs ht
  exact Option.some.inj ht ▸ act_registered hfd s a hs

/-- What a caller of `Channel::remove` on `c` relies on afterwards. -/
structure Unregistered (s : Registry P) (c : P) (t : Registry P) : Prop where
  notHashed : t.poller.hasChannel (t.channels c) = false
  notWatched : t.poller.interest (t.channels c).fd = none
  isNew : (t.channels c).status = .kNew
  others : ∀ d ≠ c, (t.channels d).status = (s.channels d).status ∧
    t.poller.channelHash (t.channels d).fd = s.poller.channelHash (s.channels d).fd ∧
    t.poller.interest (t.channels d).fd = s.poller.interest (s.channels d).fd

/-- Neither the hash nor an epoll entry points to the channel any more. -/
def Forgotten (t : Registry P) (c : P) : Prop :=
  (∀ fd, t.poller.channelHash fd ≠ some c) ∧
    ∀ fd e, t.poller.interest fd = some e → e.ptr ≠ c

/-- The teardown sequence of the library: `disableAll()`, then `remove()`. -/
def teardown (s : Registry P) (c : P) : Registry P := act (act s (.disableAll c)) (.remove c)

/-- No operation leaves its channel new, so the hash keeps pointing to it. -/
theorem act_hashed {fd : P → ℕ} (hfd : Function.Injective fd) {s : Registry P}
    (h : Registered fd s) (a : Action P) :
    ((act s a).channels a.channel).status ≠ .kNew ∧
      (act s a).poller.channelHash (fd a.channel) = some a.channel := by
  have hr := act_registered hfd s a h
  have hnew : ((act s a).channels a.channel).status ≠ .kNew := by
    obtain ⟨status, hc, hs⟩ := EPollPoller.updateChannel_channel epollCtl s.poller
      ((s.channels a.channel).withEvents (a.mask (s.channels a.channel).events))
    rw [act_eq]
    simpa [Registry.put, hc] using hs
  have hh := (hr.tracked a.channel).hash
  rw [hr.descriptor, hr.pointer, if_neg hnew] at hh
  exact ⟨hnew, hh⟩

/-- In every reachable registry, removing any channel leaves it registered,
and the whole teardown leaves the hash pointing to it. -/
theorem remove_never_unregisters {fd : P → ℕ} (hfd : Function.Injective fd) {s : Registry P}
    (hs : Reaches step (fresh fd) s) (c : P) :
    (act s (.remove c)).poller.hasChannel ((act s (.remove c)).channels c) = true ∧
      ¬ Unregistered s c (act s (.remove c)) ∧ ¬ Forgotten (teardown s c) c := by
  have hr := reaches_registered hfd hs
  have hd := act_registered hfd s (.disableAll c) hr
  obtain ⟨hnew, hhash⟩ := act_hashed hfd hr (.remove c)
  obtain ⟨-, hteardown⟩ := act_hashed hfd hd (.remove c)
  have hpost := act_registered hfd s (.remove c) hr
  refine ⟨?_, ?_, ?_⟩
  · rw [EPollPoller.hasChannel, hpost.descriptor, hpost.pointer]
    exact beq_iff_eq.mpr hhash
  · intro hu
    exact hnew hu.isNew
  · intro hf
    exact hf.1 (fd c) hteardown

/-- A single channel that reads and is then removed. -/
def reading : Registry ℕ := act (fresh id) (.enableReading 0)

theorem reading_reached : Reaches step (fresh id) reading := ⟨[.enableReading 0], rfl⟩

theorem remove_never_unregisters_reading :
    (act reading (.remove 0)).poller.hasChannel ((act reading (.remove 0)).channels 0) = true ∧
      ¬ Unregistered reading 0 (act reading (.remove 0)) ∧ ¬ Forgotten (teardown reading 0) 0 :=
  remove_never_unregisters Function.injective_id reading_reached 0

/-- The removed channel stays added and watched for reading. -/
theorem removal_law_fails :
    ¬ ∀ s : Registry ℕ, Reaches step (fresh id) s → ∀ c, Unregistered s c (act s (.remove c)) := by
  intro h
  have hnew := (h reading reading_reached 0).isNew
  revert hnew
  decide

end Netmux.ChannelTeardown
