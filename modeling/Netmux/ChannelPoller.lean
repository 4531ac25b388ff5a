import Mathlib.Data.Nat.Notation
import Mathlib.Logic.Function.Basic
import Mathlib.Tactic.SplitIfs

/-!
# Channels, the epoll poller and the loop between them

`Channel`, `EPollPoller` and the two delegating methods of `EventLoop`. Three
records say which descriptors are watched: the status in each channel, the
poller's hash from descriptors to channels, and the kernel's interest set.

Pointers to channels are the elements of a type `P`. `epollCtl` is the
documented kernel call, which fails for an `ADD` of a present descriptor and
for `MOD` and `DEL` of an absent one; the poller takes the call as a parameter,
and a failed call is only logged. `EventLoop.removeChannel` is written as the
source has it: it calls `updateChannel` of the poller.
-/
namespace Netmux.ChannelPoller

abbrev EventMask := BitVec 32

def EPOLLIN : EventMask := 0x001#32
def EPOLLPRI : EventMask := 0x002#32
def EPOLLOUT : EventMask := 0x004#32
def EPOLLERR : EventMask := 0x008#32
def EPOLLHUP : EventMask := 0x010#32

def kNoneEvent : EventMask := 0#32
def kReadEvent : EventMask := EPOLLIN ||| EPOLLPRI
def kWriteEvent : EventMask := EPOLLOUT

/-- The status constants `-1`, `1` and `2` of `EPollPoller.cc`. -/
inductive Status where
  | kNew | kAdded | kDeleted
  deriving DecidableEq, Repr

variable {P : Type}

structure Channel (P : Type) where
  address : P
  fd : ℕ
  events : EventMask
  revents : EventMask
  status : Status
  tied : Bool
  deriving DecidableEq, Repr

namespace Channel

def create (address : P) (fd : ℕ) : Channel P := ⟨address, fd, kNoneEvent, 0#32, .kNew, false⟩

def isNonEvent (c : Channel P) : Bool := c.events == kNoneEvent
def isWriting (c : Channel P) : Bool := c.events == kWriteEvent
def isReading (c : Channel P) : Bool := c.events == kReadEvent

def setRevents (c : Channel P) (revents : EventMask) : Channel P := { c with revents := revents }
def setStatus (c : Channel P) (status : Status) : Channel P := { c with status := status }
def tie (c : Channel P) : Channel P := { c with tied := true }
def withEvents (c : Channel P) (events : EventMask) : Channel P := { c with events := events }

@[simp] theorem setStatus_fd (c : Channel P) (status : Status) :
    (c.setStatus status).fd = c.fd := rfl
@[simp] theorem setStatus_address (c : Channel P) (status : Status) :
    (c.setStatus status).address = c.address := rfl
@[simp] theorem setStatus_status (c : Channel P) (status : Status) :
    (c.setStatus status).status = status := rfl
@[simp] theorem withEvents_fd (c : Channel P) (events : EventMask) :
    (c.withEvents events).fd = c.fd := rfl
@[simp] theorem withEvents_address (c : Channel P) (events : EventMask) :
    (c.withEvents events).address = c.address := rfl
@[simp] theorem withEvents_status (c : Channel P) (events : EventMask) :
    (c.withEvents events).status = c.status := rfl

end Channel

structure EpollEvent (P : Type) where
  events : EventMask
  ptr : P
  deriving DecidableEq, Repr

inductive CtlOperation where
  | EPOLL_CTL_ADD | EPOLL_CTL_MOD | EPOLL_CTL_DEL
  deriving DecidableEq, Repr

abbrev InterestSet (P : Type) := ℕ → Option (EpollEvent P)

/-- `epoll_ctl`: the new interest set, or `none` for a failed call. -/
abbrev Ctl (P : Type) := InterestSet P → CtlOperation → ℕ → EpollEvent P → Option (InterestSet P)

def epollCtl : Ctl P := fun set operation fd event =>
  match operation, set fd with
  | .EPOLL_CTL_ADD, none => some (Function.update set fd (some event))
  | .EPOLL_CTL_MOD, some _ => some (Function.update set fd (some event))
  | .EPOLL_CTL_DEL, some _ => some (Function.update set fd none)
  | .EPOLL_CTL_ADD, some _ => none
  | .EPOLL_CTL_MOD, none => none
  | .EPOLL_CTL_DEL, none => none

/-- A call that succeeds stores the event or takes the entry out. -/
theorem epollCtl_eq_some {set changed : InterestSet P} {operation : CtlOperation} {fd : ℕ}
    {event : EpollEvent P} (h : epollCtl set operation fd event = some changed) :
    changed = Function.update set fd (some event) ∨ changed = Function.update set fd none := by
  unfold epollCtl at h
  cases operation with
  | EPOLL_CTL_ADD => cases hi : set fd <;> simp_all
  | EPOLL_CTL_MOD => cases hi : set fd <;> simp_all
  | EPOLL_CTL_DEL => cases hi : set fd <;> simp_all

/-- The poller's hash together with the interest set of its epoll descriptor. -/
structure EPollPoller (P : Type) where
  channelHash : ℕ → Option P
  interest : InterestSet P

namespace EPollPoller

def create : EPollPoller P := ⟨fun _ => none, fun _ => none⟩

def update (ctl : Ctl P) (p : EPollPoller P) (operation : CtlOperation) (c : Channel P) :
    EPollPoller P :=
  match ctl p.interest operation c.fd ⟨c.events, c.address⟩ with
  | some interest => { p with interest := interest }
  | none => p

def updateChannel (ctl : Ctl P) (p : EPollPoller P) (c : Channel P) :
    EPollPoller P × Channel P :=
  match c.status with
  | .kNew =>
      let p := { p with channelHash := Function.update p.channelHash c.fd (some c.address) }
      (p.update ctl .EPOLL_CTL_ADD (c.setStatus .kAdded), c.setStatus .kAdded)
  | .kDeleted => (p.update ctl .EPOLL_CTL_ADD (c.setStatus .kAdded), c.setStatus .kAdded)
  | .kAdded =>
      if c.isNonEvent then (p.update ctl .EPOLL_CTL_DEL c, c.setStatus .kDeleted)
      else (p.update ctl .EPOLL_CTL_MOD c, c)

def removeChannel (ctl : Ctl P) (p : EPollPoller P) (c : Channel P) :
    EPollPoller P × Channel P :=
  let p := { p with channelHash := Function.update p.channelHash c.fd none }
  (if c.status = .kAdded then p.update ctl .EPOLL_CTL_DEL c else p, c.setStatus .kNew)

/-- The mask the kernel has for a descriptor; none if it does not watch it. -/
def kernelMask (p : EPollPoller P) (fd : ℕ) : EventMask :=
  ((p.interest fd).map EpollEvent.events).getD kNoneEvent

def hasChannel [DecidableEq P] (p : EPollPoller P) (c : Channel P) : Bool :=
  p.channelHash c.fd == some c.address

end EPollPoller

namespace EventLoop

def updateChannel (ctl : Ctl P) (p : EPollPoller P) (c : Channel P) :
    EPollPoller P × Channel P := p.updateChannel ctl c

def removeChannel (ctl : Ctl P) (p : EPollPoller P) (c : Channel P) :
    EPollPoller P × Channel P := p.updateChannel ctl c

end EventLoop

namespace Channel

def update (c : Channel P) (ctl : Ctl P) (p : EPollPoller P) : EPollPoller P × Channel P :=
  EventLoop.updateChannel ctl p c

def remove (c : Channel P) (ctl : Ctl P) (p : EPollPoller P) : EPollPoller P × Channel P :=
  EventLoop.removeChannel ctl p c

/-- The shape the interest operations share: a new mask, then `update()`. -/
def setEvents (c : Channel P) (ctl : Ctl P) (p : EPollPoller P) (events : EventMask) :
    EPollPoller P × Channel P := (c.withEvents events).update ctl p

def enableReading (c : Channel P) (ctl : Ctl P) (p : EPollPoller P) :
    EPollPoller P × Channel P := c.setEvents ctl p (c.events ||| kReadEvent)

def disenableReading (c : Channel P) (ctl : Ctl P) (p : EPollPoller P) :
    EPollPoller P × Channel P := c.setEvents ctl p (c.events &&& ~~~kReadEvent)

def enableWriting (c : Channel P) (ctl : Ctl P) (p : EPollPoller P) :
    EPollPoller P × Channel P := c.setEvents ctl p (c.events ||| kWriteEvent)

def disenableWriting (c : Channel P) (ctl : Ctl P) (p : EPollPoller P) :
    EPollPoller P × Channel P := c.setEvents ctl p (c.events &&& ~~~kWriteEvent)

def disableAll (c : Channel P) (ctl : Ctl P) (p : EPollPoller P) :
    EPollPoller P × Channel P := c.setEvents ctl p kNoneEvent

end Channel

/-- Hash and interest set agree with the channel's status: the hash knows the
channel unless it is new, the kernel watches it exactly while it is added. -/
structure Tracks (p : EPollPoller P) (c : Channel P) : Prop where
  hash : p.channelHash c.fd = if c.status = .kNew then none else some c.address
  interest : p.interest c.fd = if c.status = .kAdded then some ⟨c.events, c.address⟩ else none

theorem tracks_create (a : P) (fd : ℕ) : Tracks EPollPoller.create (Channel.create a fd) :=
  ⟨rfl, rfl⟩

namespace EPollPoller

@[simp] theorem update_channelHash (ctl : Ctl P) (p : EPollPoller P) (operation : CtlOperation)
    (c : Channel P) : (p.update ctl operation c).channelHash = p.channelHash := by
  unfold update
  split <;> rfl

theorem update_interest_of_ne (p : EPollPoller P) (operation : CtlOperation) (c : Channel P)
    {fd : ℕ} (h : fd ≠ c.fd) :
    (p.update epollCtl operation c).interest fd = p.interest fd := by
  unfold update epollCtl
  cases operation <;> cases hi : p.interest c.fd <;> simp [h]

theorem update_add_interest (p : EPollPoller P) (c : Channel P) (h : p.interest c.fd = none) :
    (p.update epollCtl .EPOLL_CTL_ADD c).interest c.fd = some ⟨c.events, c.address⟩ := by
  simp [update, epollCtl, h]

theorem update_mod_interest (p : EPollPoller P) (c : Channel P) {e : EpollEvent P}
    (h : p.interest c.fd = some e) :
    (p.update epollCtl .EPOLL_CTL_MOD c).interest c.fd = some ⟨c.events, c.address⟩ := by
  simp [update, epollCtl, h]

/-- After a `DEL` the descriptor is not watched, whether or not it was. -/
theorem update_del_interest (p : EPollPoller P) (c : Channel P) :
    (p.update epollCtl .EPOLL_CTL_DEL c).interest c.fd = none := by
  unfold update epollCtl
  cases hi : p.interest c.fd <;> simp [hi]

/-- The channel keeps everything but its status, and never ends up new. -/
theorem updateChannel_channel (ctl : Ctl P) (p : EPollPoller P) (c : Channel P) :
    ∃ status, (p.updateChannel ctl c).2 = c.setStatus status ∧ status ≠ .kNew := by
  unfold updateChannel
  cases hs : c.status with
  | kNew => exact ⟨.kAdded, rfl, by decide⟩
  | kDeleted => exact ⟨.kAdded, rfl, by decide⟩
  | kAdded =>
      simp only
      split_ifs
      · exact ⟨.kDeleted, rfl, by decide⟩
      · exact ⟨.kAdded, by rw [← hs]; rfl, by decide⟩

/-- `updateChannel` leaves the channel added, unless it was and its mask is empty. -/
theorem updateChannel_added_iff (ctl : Ctl P) (p : EPollPoller P) (c : Channel P) :
    (p.updateChannel ctl c).2.status = .kAdded ↔
      (c.events = kNoneEvent → c.status ≠ .kAdded) := by
  unfold updateChannel
  cases hs : c.status with
  | kNew => simp
  | kDeleted => simp
  | kAdded =>
      have hnone : c.isNonEvent = true ↔ c.events = kNoneEvent := beq_iff_eq
      dsimp only
      split_ifs with hempty
      · simp [hnone.mp hempty]
      · simp [hs, mt hnone.mpr hempty]

theorem updateChannel_of_ne (p : EPollPoller P) (c : Channel P) {fd : ℕ} (h : fd ≠ c.fd) :
    (p.updateChannel epollCtl c).1.channelHash fd = p.channelHash fd ∧
      (p.updateChannel epollCtl c).1.interest fd = p.interest fd := by
  unfold updateChannel
  cases c.status with
  | kNew => exact ⟨by simp [h], update_interest_of_ne _ _ _ h⟩
  | kDeleted => exact ⟨by simp, update_interest_of_ne _ _ _ h⟩
  | kAdded =>
      simp only
      split_ifs
      · exact ⟨by simp, update_interest_of_ne _ _ _ h⟩
      · exact ⟨by simp, update_interest_of_ne _ _ _ h⟩

/-- An entry after a call was there before it or is the channel's own. -/
theorem update_entry {p : EPollPoller P} {operation : CtlOperation} {c : Channel P} {fd : ℕ}
    {e : EpollEvent P} (h : (p.update epollCtl operation c).interest fd = some e) :
    p.interest fd = some e ∨ (fd = c.fd ∧ e.ptr = c.address) := by
  by_cases hfd : fd = c.fd
  · unfold update at h
    subst hfd
    cases hc : epollCtl p.interest operation c.fd ⟨c.events, c.address⟩ with
    | none =>
        rw [hc] at h
        exact .inl h
    | some changed =>
        rw [hc] at h
        rcases epollCtl_eq_some hc with rfl | rfl
        · have hown := h.symm.trans (Function.update_self ..)
          exact .inr ⟨rfl, congrArg EpollEvent.ptr (Option.some.inj hown)⟩
        · cases h.symm.trans (Function.update_self ..)
  · rw [update_interest_of_ne p operation c hfd] at h
    exact .inl h

theorem updateChannel_entry {p : EPollPoller P} {c : Channel P} {fd : ℕ} {e : EpollEvent P}
    (h : (p.updateChannel epollCtl c).1.interest fd = some e) :
    p.interest fd = some e ∨ (fd = c.fd ∧ e.ptr = c.address) := by
  unfold updateChannel at h
  cases hs : c.status with
  | kNew =>
      rw [hs] at h
      exact update_entry (c := c.setStatus .kAdded)
        (p := ⟨Function.update p.channelHash c.fd (some c.address), p.interest⟩) h
  | kDeleted =>
      rw [hs] at h
      exact update_entry (c := c.setStatus .kAdded) h
  | kAdded =>
      rw [hs] at h
      dsimp only at h
      split_ifs at h
      · exact update_entry h
      · exact update_entry h

theorem removeChannel_entry {p : EPollPoller P} {c : Channel P} {fd : ℕ} {e : EpollEvent P}
    (h : (p.removeChannel epollCtl c).1.interest fd = some e) :
    p.interest fd = some e ∨ (fd = c.fd ∧ e.ptr = c.address) := by
  unfold removeChannel at h
  dsimp only at h
  split_ifs at h
  · exact update_entry (p := ⟨Function.update p.channelHash c.fd none, p.interest⟩) h
  · exact .inl h

/-- `updateChannel` brings hash and interest set up to date with a new mask. -/
theorem updateChannel_tracks {p : EPollPoller P} {c : Channel P} (h : Tracks p c)
    (events : EventMask) :
    Tracks (p.updateChannel epollCtl (c.withEvents events)).1
      (p.updateChannel epollCtl (c.withEvents events)).2 := by
  have hh := h.hash
  have hi := h.interest
  unfold updateChannel
  cases hs : c.status with
  | kNew =>
      simp only [Channel.withEvents_status, hs, reduceCtorEq, if_false] at hi ⊢
      constructor
      · simp
      · exact update_add_interest _ _ hi
  | kDeleted =>
      simp only [Channel.withEvents_status, hs, reduceCtorEq, if_false] at hh hi ⊢
      constructor
      · simpa using hh
      · exact update_add_interest _ _ hi
  | kAdded =>
      simp only [Channel.withEvents_status, hs, reduceCtorEq, if_false, if_true] at hh hi ⊢
      split_ifs
      · constructor
        · simpa using hh
        · exact update_del_interest _ _
      · constructor
        · simpa [hs] using hh
        · simpa [hs] using update_mod_interest p (c.withEvents events) hi

theorem removeChannel_of_ne (p : EPollPoller P) (c : Channel P) {fd : ℕ} (h : fd ≠ c.fd) :
    (p.removeChannel epollCtl c).1.channelHash fd = p.channelHash fd ∧
      (p.removeChannel epollCtl c).1.interest fd = p.interest fd := by
  unfold removeChannel
  dsimp only
  split_ifs
  · exact ⟨by simp [h], update_interest_of_ne _ _ _ h⟩
  · exact ⟨by simp [h], rfl⟩

/-- `removeChannel` leaves nothing of the channel behind. -/
theorem removeChannel_tracks {p : EPollPoller P} {c : Channel P} (h : Tracks p c) :
    Tracks (p.removeChannel epollCtl c).1 (p.removeChannel epollCtl c).2 := by
  have hi := h.interest
  unfold removeChannel
  dsimp only
  split_ifs with hs
  · constructor
    · simp
    · exact update_del_interest _ _
  · rw [if_neg hs] at hi
    constructor
    · simp
    · exact hi

end EPollPoller

namespace Channel

/-- The interest operations set the mask, whatever `update()` then does. -/
theorem setEvents_events (ctl : Ctl P) (c : Channel P) (p : EPollPoller P) (events : EventMask) :
    (c.setEvents ctl p events).2.events = events := by
  obtain ⟨status, hc, -⟩ := EPollPoller.updateChannel_channel ctl p (c.withEvents events)
  have hset : (c.setEvents ctl p events).2 = (c.withEvents events).setStatus status := hc
  rw [hset]
  rfl

theorem remove_events (ctl : Ctl P) (c : Channel P) (p : EPollPoller P) :
    (c.remove ctl p).2.events = c.events := by
  obtain ⟨status, hc, -⟩ := EPollPoller.updateChannel_channel ctl p c
  have hset : (c.remove ctl p).2 = c.setStatus status := hc
  rw [hset]
  rfl

end Channel

end Netmux.ChannelPoller
