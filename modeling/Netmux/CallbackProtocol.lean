import Netmux.ActionRuns
import Netmux.TcpConnection

/-!
# The callbacks a connection makes

One connection from `connectEstablished` on: dispatches of its channel with
arbitrary event masks, the four conditions of `handleEventWithGuard` one after the
other, and in between `connectDestroyed` and uses of `send`, `shutdown` and the input
buffer, the former two also by other threads. The user should see the connection
come up, then messages, then at most once that it went down.

No handler looks at `state_`, so this depends on none of them running once the
connection is down, which is when its mask is empty. Two dispatches can break
it. The one that closed the connection, or in which it was destroyed, goes on to
read if its mask also asks for that. And `connectDestroyed` puts the descriptor back
into the interest set, so that a connection somebody still holds is dispatched again
for a hang-up or an error. `connectDestroyed` itself does test `state_` before it
reports.
-/
namespace Netmux.CallbackProtocol
open ActionRuns SocketBuffer ChannelPoller TcpConnection

/-- The conditions of `handleEventWithGuard`. -/
def firesClose (revents : EventMask) : Bool :=
  (revents &&& EPOLLHUP != 0#32) && !(revents &&& EPOLLIN != 0#32)

def firesError (revents : EventMask) : Bool := revents &&& EPOLLERR != 0#32

def firesRead (revents : EventMask) : Bool := revents &&& (EPOLLIN ||| EPOLLPRI) != 0#32

def firesWrite (revents : EventMask) : Bool := revents &&& EPOLLOUT != 0#32

/-- The condition evaluated next, if a dispatch is under way. -/
inductive Stage where
  | idle | closeTest | errorTest | readTest | writeTest
  deriving DecidableEq, Repr

/-- A connection at work; `storing` counts the calls of `shutdown` that have
tested `state_` and not yet set it, `trace` collects what the user sees. -/
structure Session where
  site : Site
  stage : Stage
  storing : ℕ
  trace : List Effect

namespace Session

def state (s : Session) : StateE := s.site.connection.state
def channel (s : Session) : Channel ℕ := s.site.connection.channel
def revents (s : Session) : EventMask := s.channel.revents

def advance (s : Session) (r : Site × List Effect) (stage : Stage) : Session :=
  { s with site := r.1, stage := stage, trace := s.trace ++ r.2 }

/-- The outcome of a method that touches the connection only. -/
def onConnection (s : Session) (r : Connection × List Effect) (stage : Stage) : Session :=
  s.advance (⟨r.1, s.site.poller⟩, r.2) stage

def withRevents (s : Session) (revents : EventMask) : Session :=
  { s with site := ⟨{ s.site.connection with channel := s.channel.setRevents revents },
    s.site.poller⟩ }

/-- `epoll_wait` can return the channel: its descriptor is watched for it. -/
def watched (s : Session) : Bool :=
  (s.site.poller.interest s.channel.fd).any fun e => e.ptr == s.channel.address

end Session

inductive Action where
  | handleEvent (revents : EventMask) (alive : Bool)
  | condition (readv : List ℕ → ReadvAnswer) (write : Bytes → WriteAnswer)
  | useInput (left : Buffer)
  | send (inLoopThread : Bool) (buf : Bytes) (write : Bytes → WriteAnswer)
  | sendInLoop (data : Bytes) (write : Bytes → WriteAnswer)
  | shutdownTest
  | shutdownStore
  | shutdownInLoop
  | connectDestroyed

/-- One condition of `handleEventWithGuard` and its handler. -/
def handleEventWithGuard (s : Session) (readv : List ℕ → ReadvAnswer)
    (write : Bytes → WriteAnswer) : Option Session :=
  match s.stage with
  | .idle => none
  | .closeTest =>
      some (s.advance (if firesClose s.revents then s.site.handleClose else (s.site, []))
        .errorTest)
  | .errorTest =>
      some (s.advance (if firesError s.revents then s.site.handleError else (s.site, []))
        .readTest)
  | .readTest =>
      if firesRead s.revents then
        (s.site.handleRead readv).toOption.map fun r => s.advance r .writeTest
      else some (s.advance (s.site, []) .writeTest)
  | .writeTest =>
      if firesWrite s.revents then
        (s.site.connection.handleWrite write).toOption.map fun r => s.onConnection r .idle
      else some (s.advance (s.site, []) .idle)

def step (s : Session) : Action → Option Session
  | .handleEvent revents alive =>
      if s.stage = .idle ∧ s.watched then
        let s := s.withRevents revents
        some { s with stage := if s.channel.tied && !alive then .idle else .closeTest }
      else none
  | .condition readv write => handleEventWithGuard s readv write
  | .useInput left => some { s with site := s.site.withInput left }
  | .send inLoopThread buf write =>
      some (s.onConnection (s.site.connection.send inLoopThread buf write) s.stage)
  | .sendInLoop data write =>
      some (s.onConnection (s.site.connection.sendInLoop data write) s.stage)
  | .shutdownTest =>
      some (if s.state = .kConnected then { s with storing := s.storing + 1 } else s)
  | .shutdownStore =>
      if 0 < s.storing then
        some { s with site := s.site.setState .kDisconnecting, storing := s.storing - 1 }
      else none
  | .shutdownInLoop => some (s.onConnection s.site.connection.shutdownInLoop s.stage)
  -- within a dispatch too: a callback may end the server
  | .connectDestroyed => some (s.advance s.site.connectDestroyed s.stage)

def start (c : Connection) (p : EPollPoller ℕ) : Session :=
  ⟨Site.established c p, .idle, 0, (Site.connectEstablished ⟨c, p⟩).2⟩

def up : Effect := .connectionCallback true
def down : Effect := .connectionCallback false

/-- What goes to the user, as against the server. -/
def visible : Effect → Bool
  | .connectionCallback _ | .messageCallback => true
  | _ => false

def callbacks (trace : List Effect) : List Effect := trace.filter visible

def messages (n : ℕ) : List Effect := List.replicate n .messageCallback

/-- `up . message* . (down)?`, with the server told at most once. -/
def InProtocol (trace : List Effect) : Prop :=
  (∃ n, callbacks trace = up :: messages n ∨ callbacks trace = up :: messages n ++ [down]) ∧
    trace.count .closeCallback ≤ 1

/-- The handler of this step reports: the close condition fires, or the read
condition does and the socket does not fail. -/
def Reports (s : Session) : Action → Prop
  | .condition readv _ =>
      (s.stage = .closeTest ∧ firesClose s.revents = true) ∨
        (s.stage = .readTest ∧ firesRead s.revents = true ∧
          ∃ data, readv s.site.connection.inputBuffer.vectors = .delivered data)
  | _ => False

/-- No handler reports once the mask of the channel is empty. -/
def Tame (s : Session) (a : Action) : Prop := s.channel.isNonEvent = true → ¬ Reports s a

/-- Effects that are no callback of the protocol. -/
def Quiet (effects : List Effect) : Prop :=
  callbacks effects = [] ∧ effects.count .closeCallback = 0

theorem callbacks_append (e f : List Effect) : callbacks (e ++ f) = callbacks e ++ callbacks f :=
  List.filter_append ..

theorem quiet_nil : Quiet [] := ⟨rfl, rfl⟩

theorem Quiet.append {e f : List Effect} (he : Quiet e) (hf : Quiet f) : Quiet (e ++ f) := by
  constructor
  · rw [callbacks_append, he.1, hf.1, List.nil_append]
  · rw [List.count_append, he.2, hf.2]

/-- Adding quiet effects to a trace changes nothing the protocol is about. -/
theorem Quiet.callbacks_append {effects : List Effect} (h : Quiet effects) (trace : List Effect) :
    callbacks (trace ++ effects) = callbacks trace := by
  rw [CallbackProtocol.callbacks_append, h.1, List.append_nil]

theorem Quiet.count_append {effects : List Effect} (h : Quiet effects) (trace : List Effect) :
    (trace ++ effects).count .closeCallback = trace.count .closeCallback := by
  rw [List.count_append, h.2, Nat.add_zero]

theorem quiet_checkHighWaterMark (c : Connection) (remaining : ℕ) :
    Quiet (c.checkHighWaterMark remaining) := by
  dsimp only [Connection.checkHighWaterMark]
  split_ifs
  · exact ⟨rfl, rfl⟩
  · exact quiet_nil

theorem quiet_sendInLoop (c : Connection) (data : Bytes) (write : Bytes → WriteAnswer) :
    (c.sendInLoop data write).1 = c ∧ Quiet (c.sendInLoop data write).2 := by
  unfold Connection.sendInLoop
  split_ifs with hstate hdirect
  · exact ⟨rfl, quiet_nil⟩
  · cases write data with
    | accepted count =>
        have hfirst : Quiet [.accepted (data.take count)] := ⟨rfl, rfl⟩
        refine ⟨rfl, hfirst.append (Quiet.append ?_ (quiet_checkHighWaterMark _ _))⟩
        split_ifs
        · exact ⟨rfl, rfl⟩
        · exact quiet_nil
    | failed errno =>
        refine ⟨rfl, ?_⟩
        dsimp only
        split_ifs
        · exact quiet_nil
        · exact quiet_checkHighWaterMark _ _
  · exact ⟨rfl, quiet_checkHighWaterMark _ _⟩

theorem quiet_send (c : Connection) (inLoopThread : Bool) (buf : Bytes)
    (write : Bytes → WriteAnswer) :
    (c.send inLoopThread buf write).1 = c ∧ Quiet (c.send inLoopThread buf write).2 := by
  unfold Connection.send
  split_ifs
  · exact quiet_sendInLoop c buf write
  · exact ⟨rfl, rfl, rfl⟩
  · exact ⟨rfl, quiet_nil⟩

theorem quiet_shutdownInLoop (c : Connection) :
    (c.shutdownInLoop).1 = c ∧ Quiet (c.shutdownInLoop).2 := by
  unfold Connection.shutdownInLoop
  split_ifs
  · exact ⟨rfl, quiet_nil⟩
  · exact ⟨rfl, rfl, rfl⟩

theorem quiet_handleWrite {c : Connection} {write : Bytes → WriteAnswer}
    {r : Connection × List Effect} (h : c.handleWrite write = .ok r) : r.1 = c ∧ Quiet r.2 := by
  unfold Connection.handleWrite at h
  split_ifs at h
  · cases hw : c.outputBuffer.writeFd write with
    | error fault =>
        rw [hw] at h
        cases h
    | ok q =>
        rw [hw] at h
        cases h
        exact ⟨rfl, rfl, rfl⟩
  · cases h
    exact ⟨rfl, quiet_nil⟩

theorem toOption_eq_some {α : Type} {x : Except Fault α} {a : α} (h : x.toOption = some a) :
    x = .ok a := by
  cases x with
  | error fault => cases h
  | ok b =>
      cases h
      rfl

/-- The value of `readFd` says whether `::readv` failed. -/
theorem readFd_result {b b' : Buffer} {readv : List ℕ → ReadvAnswer} {n : ReadResult}
    (h : b.readFd readv = .ok (b', n)) :
    (∃ errno, readv b.vectors = .failed errno ∧ n = .failed errno) ∨
      ∃ data, readv b.vectors = .delivered data ∧ n = .count data.length := by
  unfold Buffer.readFd at h
  cases hr : readv b.vectors with
  | failed errno =>
      rw [hr] at h
      cases h
      exact .inl ⟨errno, rfl, rfl⟩
  | delivered data =>
      refine .inr ⟨data, rfl, ?_⟩
      rw [hr] at h
      revert h
      dsimp only [bind, Except.bind]
      cases access (BoundedMemory.store b.buffer b.writerIndex (data.take b.writableBytes)) with
      | error fault =>
          intro h
          cases h
      | ok filled =>
          dsimp only
          split_ifs
          · intro h
            cases h
            rfl
          · split
            · intro h
              cases h
            · intro h
              cases h
              rfl

/-- Nothing reported yet, and the mask not empty. -/
structure Up (s : Session) : Prop where
  trace : ∃ n, callbacks s.trace = up :: messages n
  untold : s.trace.count .closeCallback = 0
  listening : s.channel.isNonEvent = false

/-- Reported down, by `handleClose` or by `connectDestroyed`. -/
structure Down (s : Session) : Prop where
  trace : ∃ n, callbacks s.trace = up :: messages n ++ [down]
  told : s.trace.count .closeCallback ≤ 1
  closed : s.state ≠ .kConnected
  silent : s.channel.isNonEvent = true

/-- The two phases of a connection. -/
def Phase (s : Session) : Prop := Up s ∨ Down s

theorem Up.inProtocol {s : Session} (h : Up s) : InProtocol s.trace := by
  obtain ⟨n, hn⟩ := h.trace
  exact ⟨⟨n, .inl hn⟩, h.untold.le.trans (Nat.zero_le 1)⟩

theorem Down.inProtocol {s : Session} (h : Down s) : InProtocol s.trace := by
  obtain ⟨n, hn⟩ := h.trace
  exact ⟨⟨n, .inr hn⟩, h.told⟩

theorem Phase.inProtocol {s : Session} (h : Phase s) : InProtocol s.trace := by
  rcases h with hu | hd
  · exact hu.inProtocol
  · exact hd.inProtocol

/-- After `down` nothing visible may follow. -/
theorem not_inProtocol_of_down {trace : List Effect} {n : ℕ} {effects : List Effect}
    (h : callbacks trace = up :: messages n ++ [down]) (he : callbacks effects ≠ []) :
    ¬ InProtocol (trace ++ effects) := by
  rintro ⟨⟨m, hm⟩, -⟩
  rw [callbacks_append, h, List.append_assoc, List.cons_append] at hm
  have hfirst : messages n ++ (down :: callbacks effects) = messages m ∨
      messages n ++ (down :: callbacks effects) = messages m ++ [down] := by
    simpa using hm
  clear hm h
  induction n generalizing m with
  | zero =>
      cases m with
      | zero => simp [messages, he] at hfirst
      | succ m => simp [messages, List.replicate_succ, down] at hfirst
  | succ n ih =>
      cases m with
      | zero => simp [messages, List.replicate_succ, down] at hfirst
      | succ m =>
          apply ih m
          simpa [messages, List.replicate_succ] using hfirst

theorem isNonEvent_of_events {c d : Channel ℕ} (h : c.events = d.events) :
    c.isNonEvent = d.isNonEvent := by
  unfold Channel.isNonEvent
  rw [h]

/-- Quiet effects on an unchanged mask, with no way back to `kConnected`. -/
theorem Phase.later {s t : Session} (h : Phase s) {effects : List Effect} (hq : Quiet effects)
    (htrace : t.trace = s.trace ++ effects) (hevents : t.channel.events = s.channel.events)
    (hstate : s.state ≠ .kConnected → t.state ≠ .kConnected) : Phase t := by
  have hmask := isNonEvent_of_events hevents
  have hcallbacks : callbacks t.trace = callbacks s.trace := by
    rw [htrace, hq.callbacks_append]
  have hcount : t.trace.count .closeCallback = s.trace.count .closeCallback := by
    rw [htrace, hq.count_append]
  rcases h with hu | hd
  · exact .inl ⟨hcallbacks ▸ hu.trace, hcount.trans hu.untold, hmask.trans hu.listening⟩
  · exact .inr ⟨hcallbacks ▸ hd.trace, hcount.trans_le hd.told, hstate hd.closed,
      hmask.trans hd.silent⟩

/-- A step that the protocol does not see: quiet effects, the channel and the
poller as they were but for `revents_`, and no way back to `kConnected`. -/
structure Kept (s t : Session) : Prop where
  trace : ∃ effects, Quiet effects ∧ t.trace = s.trace ++ effects
  channel : t.channel = s.channel.setRevents t.revents
  poller : t.site.poller = s.site.poller
  state : s.state ≠ .kConnected → t.state ≠ .kConnected

theorem Kept.events {s t : Session} (k : Kept s t) : t.channel.events = s.channel.events := by
  rw [k.channel]
  rfl

theorem kept_advance (s : Session) (stage : Stage) : Kept s (s.advance (s.site, []) stage) :=
  ⟨⟨[], quiet_nil, rfl⟩, rfl, rfl, id⟩

theorem kept_onConnection (s : Session) {r : Connection × List Effect} (stage : Stage)
    (h : r.1 = s.site.connection ∧ Quiet r.2) : Kept s (s.onConnection r stage) := by
  obtain ⟨c, effects⟩ := r
  obtain ⟨rfl, hq⟩ := h
  exact ⟨⟨effects, hq, rfl⟩, rfl, rfl, id⟩

theorem Phase.kept {s t : Session} (h : Phase s) (k : Kept s t) : Phase t := by
  obtain ⟨effects, hq, htrace⟩ := k.trace
  exact h.later hq htrace k.events k.state

/-- What a handler that reports does: a message on an unchanged channel, or
`handleClose`. -/
inductive Reported (s t : Session) : Prop where
  | message (trace : t.trace = s.trace ++ [.messageCallback])
      (channel : t.channel = s.channel) (poller : t.site.poller = s.site.poller)
  | close (site : Site) (trace : t.trace = s.trace ++ [down, .closeCallback])
      (channel : site.connection.channel = s.channel)
      (closed : t.site = site.handleClose.1)

theorem Reported.visible {s t : Session} (h : Reported s t) :
    ∃ effects, t.trace = s.trace ++ effects ∧ callbacks effects ≠ [] := by
  cases h with
  | message htrace => exact ⟨_, htrace, List.cons_ne_nil _ _⟩
  | close site htrace => exact ⟨_, htrace, List.cons_ne_nil _ _⟩

theorem handleClose_isNonEvent (s : Site) :
    s.handleClose.1.connection.channel.isNonEvent = true := by
  have hevents : s.handleClose.1.connection.channel.events = kNoneEvent :=
    Channel.setEvents_events ..
  exact beq_iff_eq.mpr hevents

/-- A message keeps the connection up, the first close brings it down. -/
theorem Up.report {s t : Session} (h : Up s) (hr : Reported s t) : Phase t := by
  obtain ⟨n, hn⟩ := h.trace
  cases hr with
  | message htrace hchannel =>
      refine .inl ⟨⟨n + 1, ?_⟩, ?_, ?_⟩
      · rw [htrace, callbacks_append, hn]
        simp [callbacks, visible, messages, List.replicate_succ']
      · rw [htrace, List.count_append, h.untold]
        rfl
      · rw [hchannel]
        exact h.listening
  | close site htrace hchannel hsite =>
      refine .inr ⟨⟨n, ?_⟩, ?_, ?_, ?_⟩
      · rw [htrace, callbacks_append, hn]
        rfl
      · rw [htrace, List.count_append, h.untold]
        decide
      · rw [Session.state, hsite]
        show StateE.kDisconnected ≠ .kConnected
        decide
      · rw [Session.channel, hsite]
        exact handleClose_isNonEvent site

/-- A report after `down` breaks the protocol, whatever it says. -/
theorem Down.report {s t : Session} (h : Down s) (hr : Reported s t) : ¬ InProtocol t.trace := by
  obtain ⟨n, hn⟩ := h.trace
  obtain ⟨effects, htrace, hvisible⟩ := hr.visible
  rw [htrace]
  exact not_inProtocol_of_down hn hvisible

/-- The read condition, by the value of `::readv`. -/
theorem read_cases {s t : Session} {readv : List ℕ → ReadvAnswer}
    (ht : ((s.site.handleRead readv).toOption.map fun r => s.advance r .writeTest) = some t) :
    (∃ errno, readv s.site.connection.inputBuffer.vectors = .failed errno ∧ Kept s t) ∨
      ∃ data, readv s.site.connection.inputBuffer.vectors = .delivered data ∧ Reported s t := by
  obtain ⟨r, hr, rfl⟩ := Option.map_eq_some_iff.mp ht
  obtain ⟨b, n, hb, hn⟩ := Site.handleRead_eq_ok.mp (toOption_eq_some hr)
  rcases readFd_result hb with ⟨errno, hfail, rfl⟩ | ⟨data, hdata, rfl⟩
  · subst hn
    exact .inl ⟨errno, hfail, ⟨[], quiet_nil, rfl⟩, rfl, rfl, id⟩
  · refine .inr ⟨data, hdata, ?_⟩
    subst hn
    cases data.length with
    | zero => exact .close (s.site.withInput b) rfl rfl rfl
    | succ k => exact .message rfl rfl rfl

/-- One condition of a dispatch reports, or keeps to itself. -/
theorem condition_cases {s t : Session} {readv : List ℕ → ReadvAnswer}
    {write : Bytes → WriteAnswer} (ht : handleEventWithGuard s readv write = some t) :
    (Reports s (.condition readv write) ∧ Reported s t) ∨
      (¬ Reports s (.condition readv write) ∧ Kept s t) := by
  unfold handleEventWithGuard at ht
  cases hst : s.stage with
  | idle => simp [hst] at ht
  | closeTest =>
      simp only [hst, Option.some.injEq] at ht
      subst ht
      by_cases hfire : firesClose s.revents = true
      · rw [if_pos hfire]
        exact .inl ⟨.inl ⟨hst, hfire⟩, .close s.site rfl rfl rfl⟩
      · rw [if_neg hfire]
        exact .inr ⟨by simp [Reports, hst, hfire], kept_advance s _⟩
  | errorTest =>
      simp only [hst, Site.handleError, ite_self, Option.some.injEq] at ht
      subst ht
      exact .inr ⟨by simp [Reports, hst], kept_advance s _⟩
  | readTest =>
      simp only [hst] at ht
      split_ifs at ht with hfire
      · rcases read_cases ht with ⟨errno, hfail, hk⟩ | ⟨data, hdata, hr⟩
        · exact .inr ⟨by simp [Reports, hst, hfail], hk⟩
        · exact .inl ⟨.inr ⟨hst, hfire, data, hdata⟩, hr⟩
      · cases ht
        exact .inr ⟨by simp [Reports, hst, hfire], kept_advance s _⟩
  | writeTest =>
      simp only [hst] at ht
      refine .inr ⟨by simp [Reports, hst], ?_⟩
      split_ifs at ht
      · obtain ⟨r, hr, rfl⟩ := Option.map_eq_some_iff.mp ht
        exact kept_onConnection s .idle (quiet_handleWrite (toOption_eq_some hr))
      · cases ht
        exact kept_advance s _

/-- `connectDestroyed` brings down a connection that is `kConnected`, and says
nothing on any other. -/
theorem connectDestroyed_phase {s : Session} (h : Phase s) (stage : Stage) :
    Phase (s.advance s.site.connectDestroyed stage) := by
  unfold Site.connectDestroyed
  split_ifs with hconn
  · rcases h with hu | hd
    · obtain ⟨n, hn⟩ := hu.trace
      refine .inr ⟨⟨n, ?_⟩, ?_, ?_, ?_⟩
      · rw [Session.advance, callbacks_append, hn]
        rfl
      · rw [Session.advance, List.count_append, hu.untold]
        exact Nat.zero_le 1
      · show StateE.kDisconnected ≠ .kConnected
        decide
      · refine beq_iff_eq.mpr ?_
        show (Channel.remove _ epollCtl _).2.events = kNoneEvent
        rw [Channel.remove_events]
        exact Channel.setEvents_events epollCtl s.channel s.site.poller kNoneEvent
    · exact absurd hconn hd.closed
  · exact h.later quiet_nil rfl (Channel.remove_events epollCtl s.channel s.site.poller) id

/-- Between the handlers only `connectDestroyed` is seen. -/
theorem other_kept {s t : Session} {a : Action} (ht : step s a = some t)
    (hhandler : ∀ readv write, a ≠ .condition readv write) (hd : a ≠ .connectDestroyed) :
    Kept s t := by
  cases a with
  | condition readv write => exact absurd rfl (hhandler readv write)
  | connectDestroyed => exact absurd rfl hd
  | handleEvent revents alive =>
      simp only [step, Option.ite_none_right_eq_some, Option.some.injEq] at ht
      obtain ⟨-, rfl⟩ := ht
      exact ⟨⟨[], quiet_nil, (List.append_nil _).symm⟩, rfl, rfl, id⟩
  | useInput left =>
      cases ht
      exact ⟨⟨[], quiet_nil, (List.append_nil _).symm⟩, rfl, rfl, id⟩
  | send inLoopThread buf write =>
      cases ht
      exact kept_onConnection s _ (quiet_send _ _ _ _)
  | sendInLoop data write =>
      cases ht
      exact kept_onConnection s _ (quiet_sendInLoop _ _ _)
  | shutdownInLoop =>
      cases ht
      exact kept_onConnection s _ (quiet_shutdownInLoop _)
  | shutdownTest =>
      simp only [step, Option.some.injEq] at ht
      split_ifs at ht
      · subst ht
        exact ⟨⟨[], quiet_nil, (List.append_nil _).symm⟩, rfl, rfl, id⟩
      · subst ht
        exact ⟨⟨[], quiet_nil, (List.append_nil _).symm⟩, rfl, rfl, id⟩
  | shutdownStore =>
      simp only [step, Option.ite_none_right_eq_some, Option.some.injEq] at ht
      obtain ⟨-, rfl⟩ := ht
      refine ⟨⟨[], quiet_nil, (List.append_nil _).symm⟩, rfl, rfl, fun _ => ?_⟩
      show StateE.kDisconnecting ≠ .kConnected
      decide

/-- What one step does: a handler reports, `connectDestroyed` runs, or the
protocol sees nothing. -/
theorem step_cases {s t : Session} {a : Action} (ht : step s a = some t) :
    (Reports s a ∧ Reported s t) ∨
      (a = .connectDestroyed ∧ t = s.advance s.site.connectDestroyed s.stage) ∨
        (¬ Reports s a ∧ Kept s t) := by
  cases a with
  | condition readv write =>
      rcases condition_cases ht with hr | hk
      · exact .inl hr
      · exact .inr (.inr hk)
  | connectDestroyed => exact .inr (.inl ⟨rfl, (Option.some.inj ht).symm⟩)
  | handleEvent | useInput | send | sendInLoop | shutdownTest | shutdownStore | shutdownInLoop =>
      exact .inr (.inr ⟨id, other_kept ht (by simp) (by simp)⟩)

/-- One step of a run: a tame step keeps the phase, any other breaks the
protocol. -/
theorem step_phase {s t : Session} {a : Action} (h : Phase s) (ht : step s a = some t) :
    (Tame s a → Phase t) ∧ (InProtocol t.trace → Tame s a) := by
  rcases step_cases ht with ⟨hreports, hr⟩ | ⟨rfl, rfl⟩ | ⟨hquiet, hk⟩
  · rcases h with hu | hd
    · have hlistening := hu.listening
      exact ⟨fun _ => hu.report hr, fun _ hnone => absurd hnone (by simp [hlistening])⟩
    · exact ⟨fun htame => absurd hreports (htame hd.silent),
        fun hin => absurd hin (hd.report hr)⟩
  · exact ⟨fun _ => connectDestroyed_phase h _, fun _ _ => id⟩
  · exact ⟨fun _ => h.kept hk, fun _ _ => hquiet⟩

theorem start_up {c : Connection} (hc : c.Fresh) (p : EPollPoller ℕ) : Up (start c p) := by
  have hevents : (start c p).channel.events = kReadEvent := (Site.established_channel hc p).1
  refine ⟨⟨0, rfl⟩, rfl, ?_⟩
  rw [Channel.isNonEvent, hevents]
  decide

/-- The kernel watches the channel as long as its mask is not empty. -/
structure Enlisted (s : Session) : Prop where
  added : s.channel.isNonEvent = false → s.channel.status = .kAdded
  dropped : s.channel.isNonEvent = true → s.watched = false

theorem watched_of_interest {s : Session} (h : s.site.poller.interest s.channel.fd = none) :
    s.watched = false := by
  rw [Session.watched, h]
  rfl

/-- `handleClose` on an added channel takes it out of the interest set. -/
theorem handleClose_interest {s : Site} (h : s.connection.channel.status = .kAdded) :
    s.handleClose.1.poller.interest s.handleClose.1.connection.channel.fd = none := by
  have hdel : (s.connection.channel.withEvents kNoneEvent).isNonEvent = true :=
    beq_self_eq_true _
  have hr : (s.connection.channel.disableAll epollCtl s.poller) =
      (s.poller.update epollCtl .EPOLL_CTL_DEL (s.connection.channel.withEvents kNoneEvent),
        (s.connection.channel.withEvents kNoneEvent).setStatus .kDeleted) := by
    simp only [Channel.disableAll, Channel.setEvents, Channel.update, EventLoop.updateChannel,
      EPollPoller.updateChannel, Channel.withEvents_status, h, hdel, if_true]
  have hs : s.handleClose.1 = ⟨{ s.connection.setState .kDisconnected with
      channel := (s.connection.channel.disableAll epollCtl s.poller).2 },
      (s.connection.channel.disableAll epollCtl s.poller).1⟩ := rfl
  rw [hs, hr]
  exact EPollPoller.update_del_interest s.poller (s.connection.channel.withEvents kNoneEvent)

theorem Enlisted.same {s t : Session} (h : Enlisted s)
    (hchannel : t.channel = s.channel.setRevents t.revents)
    (hpoller : t.site.poller = s.site.poller) : Enlisted t := by
  constructor
  · rw [hchannel]
    exact h.added
  · rw [Session.watched, hpoller, hchannel]
    exact h.dropped

theorem step_enlisted {s t : Session} {a : Action} (h : Enlisted s)
    (ha : Tame s a ∧ a ≠ .connectDestroyed) (ht : step s a = some t) : Enlisted t := by
  rcases step_cases ht with ⟨hreports, hr⟩ | ⟨hd, -⟩ | ⟨-, hk⟩
  · have hlistening : s.channel.isNonEvent = false :=
      Bool.eq_false_of_not_eq_true fun hnone => ha.1 hnone hreports
    cases hr with
    | message htrace hchannel hpoller =>
        refine h.same ?_ hpoller
        rw [Session.revents, hchannel]
        rfl
    | close site htrace hchannel hsite =>
        have hadded : site.connection.channel.status = .kAdded := by
          rw [hchannel]
          exact h.added hlistening
        have hsilent : t.channel.isNonEvent = true := by
          rw [Session.channel, hsite]
          exact handleClose_isNonEvent site
        refine ⟨fun hsome => absurd hsilent (by simp [hsome]), fun _ => watched_of_interest ?_⟩
        rw [Session.channel, hsite]
        exact handleClose_interest hadded
  · exact absurd hd ha.2
  · exact h.same hk.channel hk.poller

/-- As long as `connectDestroyed` has not run, a connection reported down is
not dispatched again: only the dispatch under way can still break the protocol. -/
theorem closed_unwatched {c : Connection} (hc : c.Fresh) (p : EPollPoller ℕ)
    {actions : List Action} {t : Session} (h : run step (start c p) actions = some t)
    (hm : Meets step (fun s a => Tame s a ∧ a ≠ .connectDestroyed) (start c p) actions)
    (ht : t.channel.isNonEvent = true) : t.watched = false := by
  have hstart : Enlisted (start c p) := by
    constructor
    · intro _
      exact (Site.established_channel hc p).2
    · intro hnone
      have hlistening := (start_up hc p).listening
      exact absurd hnone (by simp [hlistening])
  exact (run_preserves_of_meets (fun _ _ _ => step_enlisted) hstart hm h).dropped ht

/-- In every run from the establishment on, `connectDestroyed` included, the
callbacks follow the protocol at every point exactly if no handler reports once
the mask of the channel is empty. -/
theorem callbacks_in_protocol_iff {c : Connection} (hc : c.Fresh) (p : EPollPoller ℕ)
    {actions : List Action} {t : Session} (h : run step (start c p) actions = some t) :
    Throughout step (fun s => InProtocol s.trace) (start c p) actions ↔
      Meets step Tame (start c p) actions :=
  throughout_iff_meets (fun _ _ _ hs htame ht => (step_phase hs ht).1 htame)
    (fun _ _ _ hs ht => (step_phase hs ht).2) (fun _ => Phase.inProtocol) (.inl (start_up hc p)) h

/-- One dispatch with `EPOLLHUP` and `EPOLLPRI` set, `EPOLLIN` not, at the end
of the stream. -/
def hangUp : List Action :=
  [.handleEvent (EPOLLHUP ||| EPOLLPRI) true] ++
    List.replicate 4 (.condition (fun _ => .delivered []) fun _ => .accepted 0)

def sampleStart : Session := start (Connection.create "c" 3 0) EPollPoller.create

theorem hangUp_trace : ∃ t ∈ run step sampleStart hangUp,
    t.trace = [up, down, .closeCallback, down, .closeCallback] := by
  decide +kernel

theorem callbacks_in_protocol_iff_hangUp :
    Throughout step (fun s => InProtocol s.trace) sampleStart hangUp ↔
      Meets step Tame sampleStart hangUp := by
  obtain ⟨t, ht, -⟩ := hangUp_trace
  exact callbacks_in_protocol_iff (Connection.create_fresh _ _ _) _ ht

/-- The disconnection is reported twice, and twice to the server. -/
theorem hangUp_leaves_protocol :
    ∃ t, run step sampleStart hangUp = some t ∧ ¬ InProtocol t.trace := by
  obtain ⟨t, ht, htrace⟩ := hangUp_trace
  refine ⟨t, ht, ?_⟩
  rintro ⟨-, htold⟩
  rw [htrace] at htold
  revert htold
  decide

/-- The destroyed connection is still held somewhere when its peer hangs up. -/
example : ∃ t ∈ run step sampleStart (.connectDestroyed :: .handleEvent EPOLLHUP true ::
    List.replicate 4 (.condition (fun _ => .failed .EWOULDBLOCK) fun _ => .accepted 0)),
    t.trace = [up, down, down, .closeCallback] := by
  decide +kernel

end Netmux.CallbackProtocol
