import Netmux.ActionRuns
import Netmux.TcpConnection

/-!
# Interest in both directions

The interest operations of a connection's channel among `sendInLoop`,
`handleWrite` and `shutdownInLoop`, in any order. The mask holds the directions
that the latest operations enabled, and the kernel has that mask. `isWriting()`
and `isReading()` compare the whole mask with the bits of one direction, so that
both deny their direction when the other one is enabled as well: `handleWrite`
then leaves its event unserved and `shutdownInLoop` does not wait.
-/
namespace Netmux.WriteInterest
open ActionRuns SocketBuffer ChannelPoller TcpConnection

inductive Interest where
  | enableReading | disenableReading | enableWriting | disenableWriting | disableAll
  deriving DecidableEq, Repr

def Interest.operation :
    Interest → Channel ℕ → Ctl ℕ → EPollPoller ℕ → EPollPoller ℕ × Channel ℕ
  | .enableReading => Channel.enableReading
  | .disenableReading => Channel.disenableReading
  | .enableWriting => Channel.enableWriting
  | .disenableWriting => Channel.disenableWriting
  | .disableAll => Channel.disableAll

/-- The directions that the most recent operations enabled. -/
structure Wanted where
  reading : Bool
  writing : Bool
  deriving DecidableEq, Repr

def Interest.want (w : Wanted) : Interest → Wanted
  | .enableReading => { w with reading := true }
  | .disenableReading => { w with reading := false }
  | .enableWriting => { w with writing := true }
  | .disenableWriting => { w with writing := false }
  | .disableAll => ⟨false, false⟩

inductive Action where
  | interest (o : Interest)
  | sendInLoop (data : Bytes) (write : Bytes → WriteAnswer)
  | handleWrite (write : Bytes → WriteAnswer)
  | shutdownInLoop

/-- A connection's site and what has been asked of its channel. -/
structure Directed where
  site : Site
  wanted : Wanted

def Directed.withConnection (s : Directed) (c : Connection) : Directed :=
  { s with site := ⟨c, s.site.poller⟩ }

def step (s : Directed) : Action → Option Directed
  | .interest o => some ⟨s.site.onChannel o.operation, o.want s.wanted⟩
  | .sendInLoop data write => some (s.withConnection (s.site.connection.sendInLoop data write).1)
  | .handleWrite write =>
      match s.site.connection.handleWrite write with
      | .ok r => some (s.withConnection r.1)
      | .error _ => none
  | .shutdownInLoop => some (s.withConnection s.site.connection.shutdownInLoop.1)

def start (s : Site) : Directed := ⟨s, ⟨false, false⟩⟩

/-- The mask the kernel has for the channel. -/
def registered (s : Site) : EventMask := s.poller.kernelMask s.connection.channel.fd

/-- All bits of a direction are in the mask. -/
def Includes (events direction : EventMask) : Prop := events &&& direction = direction

instance (events direction : EventMask) : Decidable (Includes events direction) :=
  inferInstanceAs (Decidable (_ = _))

/-- Predicates, latest operations and kernel say the same of both directions, and
the methods that ask the predicates do what the kernel's mask calls for. -/
structure Agrees (s : Directed) : Prop where
  reading : s.site.connection.channel.isReading = s.wanted.reading
  writing : s.site.connection.channel.isWriting = s.wanted.writing
  readRegistered : Includes (registered s.site) kReadEvent ↔ s.wanted.reading = true
  writeRegistered : Includes (registered s.site) kWriteEvent ↔ s.wanted.writing = true
  attempted : Includes (registered s.site) kWriteEvent →
    0 < s.site.connection.outputBuffer.readableBytes →
      ∀ write, ∃ data, s.site.connection.handleWrite write =
        .ok (s.site.connection, [.accepted data])
  heldBack : Includes (registered s.site) kWriteEvent →
    .shutdownWrite ∉ s.site.connection.shutdownInLoop.2
  inOrder : 0 < s.site.connection.outputBuffer.readableBytes →
    ∀ data write taken, .accepted taken ∉ (s.site.connection.sendInLoop data write).2

/-- A direction is enabled while the other one is off. -/
def Interest.Alone (w : Wanted) : Interest → Prop
  | .enableReading => w.writing = false
  | .enableWriting => w.reading = false
  | .disenableReading | .disenableWriting | .disableAll => True

def Separate (s : Directed) : Action → Prop
  | .interest o => o.Alone s.wanted
  | .sendInLoop _ _ | .handleWrite _ | .shutdownInLoop => True

def Wanted.mask (w : Wanted) : EventMask :=
  (if w.reading then kReadEvent else kNoneEvent) ||| (if w.writing then kWriteEvent else kNoneEvent)

def Interest.mask (events : EventMask) : Interest → EventMask
  | .enableReading => events ||| kReadEvent
  | .disenableReading => events &&& ~~~kReadEvent
  | .enableWriting => events ||| kWriteEvent
  | .disenableWriting => events &&& ~~~kWriteEvent
  | .disableAll => kNoneEvent

theorem operation_eq (o : Interest) (c : Channel ℕ) (ctl : Ctl ℕ) (p : EPollPoller ℕ) :
    o.operation c ctl p = p.updateChannel ctl (c.withEvents (o.mask c.events)) := by
  cases o <;> rfl

theorem mask_want (w : Wanted) (o : Interest) : o.mask w.mask = (o.want w).mask := by
  obtain ⟨reading, writing⟩ := w
  cases o <;> cases reading <;> cases writing <;> decide

theorem includes_read (w : Wanted) : Includes w.mask kReadEvent ↔ w.reading = true := by
  obtain ⟨reading, writing⟩ := w
  cases reading <;> cases writing <;> decide

theorem includes_write (w : Wanted) : Includes w.mask kWriteEvent ↔ w.writing = true := by
  obtain ⟨reading, writing⟩ := w
  cases reading <;> cases writing <;> decide

/-- The mask is the wanted one and the kernel has it. -/
structure Registered (s : Directed) : Prop where
  events : s.site.connection.channel.events = s.wanted.mask
  tracked : Tracks s.site.poller s.site.connection.channel
  idle : s.site.connection.channel.status ≠ .kAdded →
    s.site.connection.channel.events = kNoneEvent
  output : s.site.connection.outputBuffer.Valid

/-- At most one direction is wanted. -/
def Single (w : Wanted) : Prop := w.reading = true → w.writing = false

/-- The predicates see a direction only when the other one is off. -/
theorem single_iff (w : Wanted) :
    Single w ↔ (w.mask == kReadEvent) = w.reading ∧ (w.mask == kWriteEvent) = w.writing := by
  obtain ⟨reading, writing⟩ := w
  unfold Single
  cases reading <;> cases writing <;> decide

theorem Registered.registered_eq {s : Directed} (h : Registered s) :
    registered s.site = s.wanted.mask := by
  unfold registered EPollPoller.kernelMask
  rw [h.tracked.interest, ← h.events]
  split_ifs with hs
  · rfl
  · exact (h.idle hs).symm

theorem Registered.interest {s : Directed} (h : Registered s) (o : Interest) :
    Registered ⟨s.site.onChannel o.operation, o.want s.wanted⟩ := by
  obtain ⟨site, wanted⟩ := s
  have hmask := mask_want wanted o
  rw [← h.events] at hmask
  have heq : site.onChannel o.operation =
      ⟨{ site.connection with channel := (site.poller.updateChannel epollCtl
          (site.connection.channel.withEvents (o.want wanted).mask)).2 },
        (site.poller.updateChannel epollCtl
          (site.connection.channel.withEvents (o.want wanted).mask)).1⟩ := by
    unfold Site.onChannel
    rw [operation_eq, hmask]
  obtain ⟨status, hc, -⟩ := EPollPoller.updateChannel_channel epollCtl site.poller
    (site.connection.channel.withEvents (o.want wanted).mask)
  have hevents : (site.poller.updateChannel epollCtl
      (site.connection.channel.withEvents (o.want wanted).mask)).2.events =
        (o.want wanted).mask := by
    rw [hc]
    rfl
  rw [heq]
  constructor
  · exact hevents
  · exact EPollPoller.updateChannel_tracks h.tracked _
  · intro hs
    by_contra hmask
    apply hs
    rw [EPollPoller.updateChannel_added_iff]
    exact fun hempty => absurd (hevents.trans hempty) hmask
  · exact h.output

/-- The methods leave the connection as it is. -/
theorem step_eq {s : Directed} (hv : s.site.connection.outputBuffer.Valid) (a : Action) :
    step s a = some (match a with
      | .interest o => ⟨s.site.onChannel o.operation, o.want s.wanted⟩
      | .sendInLoop _ _ | .handleWrite _ | .shutdownInLoop => s) := by
  cases a with
  | interest o => rfl
  | sendInLoop data write =>
      dsimp only [step]
      rw [Connection.sendInLoop_fst]
      rfl
  | handleWrite write =>
      obtain ⟨effects, hw⟩ := Connection.handleWrite_eq_ok hv write
      dsimp only [step]
      rw [hw]
      rfl
  | shutdownInLoop => rfl

theorem step_registered (s : Directed) (a : Action) (t : Directed) (h : Registered s)
    (ht : step s a = some t) : Registered t := by
  rw [step_eq h.output] at ht
  cases a with
  | interest o => exact Option.some.inj ht ▸ h.interest o
  | sendInLoop data write => exact Option.some.inj ht ▸ h
  | handleWrite write => exact Option.some.inj ht ▸ h
  | shutdownInLoop => exact Option.some.inj ht ▸ h

theorem single_want {w : Wanted} (h : Single w) (o : Interest) :
    Single (o.want w) ↔ o.Alone w := by
  obtain ⟨reading, writing⟩ := w
  revert h
  unfold Single
  cases o <;> cases reading <;> cases writing <;> simp [Interest.want, Interest.Alone]

theorem step_single {s t : Directed} (h : Registered s) {a : Action} (hs : Single s.wanted)
    (ht : step s a = some t) : Single t.wanted ↔ Separate s a := by
  rw [step_eq h.output] at ht
  obtain rfl := Option.some.inj ht
  cases a with
  | interest o => exact single_want hs o
  | sendInLoop data write => exact iff_of_true hs trivial
  | handleWrite write => exact iff_of_true hs trivial
  | shutdownInLoop => exact iff_of_true hs trivial

/-- What is pending holds a direct write back, whatever the channel says. -/
theorem sendInLoop_pending {c : Connection} (h : 0 < c.outputBuffer.readableBytes) (data : Bytes)
    (write : Bytes → WriteAnswer) (taken : Bytes) :
    .accepted taken ∉ (c.sendInLoop data write).2 := by
  have hno : ∀ remaining, .accepted taken ∉ c.checkHighWaterMark remaining := by
    intro remaining
    dsimp only [Connection.checkHighWaterMark]
    split_ifs <;> simp
  have hbusy : ¬ (c.channel.isWriting = false ∧ c.outputBuffer.readableBytes = 0) :=
    fun hidle => absurd hidle.2 h.ne'
  rw [Connection.sendInLoop_busy hbusy]
  dsimp only
  split_ifs
  · exact List.not_mem_nil
  · exact hno _

/-- The decisions are right as long as one direction is wanted at a time. -/
theorem agrees_iff {s : Directed} (h : Registered s) : Agrees s ↔ Single s.wanted := by
  have hreg := h.registered_eq
  rw [single_iff, ← h.events]
  constructor
  · intro ha
    exact ⟨ha.reading, ha.writing⟩
  · rintro ⟨hreading, hwriting⟩
    have hwrites : Includes (registered s.site) kWriteEvent →
        s.site.connection.channel.isWriting = true := by
      rw [hreg, includes_write]
      exact hwriting.trans
    constructor
    · exact hreading
    · exact hwriting
    · rw [hreg]
      exact includes_read s.wanted
    · rw [hreg]
      exact includes_write s.wanted
    · intro hout _ write
      exact ⟨_, Connection.handleWrite_writing (hwrites hout) h.output write⟩
    · intro hout
      unfold Connection.shutdownInLoop
      rw [if_pos (hwrites hout)]
      exact List.not_mem_nil
    · exact sendInLoop_pending

theorem start_registered {s : Site} (hv : s.connection.outputBuffer.Valid)
    (ht : Tracks s.poller s.connection.channel) (he : s.connection.channel.events = kNoneEvent) :
    Registered (start s) := by
  have hnone : kNoneEvent = (⟨false, false⟩ : Wanted).mask := by decide
  exact ⟨he.trans hnone, ht, fun _ => he, hv⟩

/-- On every connection whose channel starts without interest, and in every run,
the decisions agree with the registered interest at every point exactly if the
two directions are never enabled together. -/
theorem agrees_throughout_iff {s : Site} (hv : s.connection.outputBuffer.Valid)
    (ht : Tracks s.poller s.connection.channel) (he : s.connection.channel.events = kNoneEvent)
    (actions : List Action) :
    Throughout step Agrees (start s) actions ↔ Meets step Separate (start s) actions := by
  have hstart := start_registered hv ht he
  refine throughout_iff_meets_of_total ?_ actions hstart ((agrees_iff hstart).mpr fun _ => rfl)
  intro u a hu
  obtain ⟨t, hstep⟩ : ∃ t, step u a = some t := ⟨_, step_eq hu.output a⟩
  have ht := step_registered u a t hu hstep
  refine ⟨t, hstep, ht, fun hagrees => ?_⟩
  rw [agrees_iff ht]
  exact step_single hu ((agrees_iff hu).mp hagrees) hstep

/-- A new connection with two bytes of output that nobody has sent. -/
def pending : Site :=
  ⟨{ Connection.create "c" 3 0 with
      state := .kDisconnecting
      outputBuffer := ⟨8, 10, [0, 0, 0, 0, 0, 0, 0, 0, 1, 2]⟩ }, EPollPoller.create⟩

theorem pending_valid : pending.connection.outputBuffer.Valid := by
  constructor <;> simp [pending, kCheapPrepend, maxSize]

/-- Reading, then writing. -/
def bothWays : List Action := [.interest .enableReading, .interest .enableWriting]

theorem agrees_throughout_iff_pending :
    Throughout step Agrees (start pending) bothWays ↔
      Meets step Separate (start pending) bothWays :=
  agrees_throughout_iff pending_valid (tracks_create 0 3) rfl bothWays

/-- With both directions on, output stays unwritten under `EPOLLOUT`, and the
half-close overtakes it. -/
theorem both_directions_disagree :
    ¬ Throughout step Agrees (start pending) bothWays ∧
      ∃ s, run step (start pending) bothWays = some s ∧
        Includes (registered s.site) kWriteEvent ∧
        s.site.connection.channel.isWriting = false ∧
        s.site.connection.handleWrite (fun _ => .accepted 2) = .ok (s.site.connection, []) ∧
        .shutdownWrite ∈ s.site.connection.shutdownInLoop.2 := by
  constructor
  · intro h
    have hboth := ((h.2 _ rfl).2 _ rfl).writing
    revert hboth
    decide
  · exact ⟨_, rfl, by decide, rfl, rfl, by decide⟩

end Netmux.WriteInterest
