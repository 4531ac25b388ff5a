import Netmux.ConnectionOutput
import Netmux.InputConservation
import Netmux.ReliableStream
import Mathlib.Data.List.Forall2

/-!
# The echo server, from the client back to the client

`echoServer.cpp` on one connection: the stream its client sends, the dispatches
of its channel, `handleRead` and the message callback it runs, which takes all
of the input buffer and sends it back. The kernel delivers any part of the
stream that fits the vectors, or fails; it answers `::write` as it likes.

A message is what one `handleRead` delivered. Its reply is what the socket took
of it: the connection stores no remainder, and a connection that is no longer
connected sends nothing.
-/
namespace Netmux.EchoServer
open ActionRuns ReliableStream SocketBuffer ChannelPoller TcpConnection CallbackProtocol
open InputConservation (Answer)
open ConnectionOutput (taken Direct)

/-- `EchoServer::onMessage`, with the message it took from the buffer. -/
def onMessage (s : Site) (write : Bytes → WriteAnswer) :
    Except Fault (Site × List Effect × Bytes) := do
  let (buffer, msg) ← s.connection.inputBuffer.retrieveAllAsString
  let s := s.withInput buffer
  let (connection, effects) := s.connection.send true msg write
  return (⟨connection, s.poller⟩, effects, msg)

/-- A connection of the server; `messages` and `replies` collect what the
callback took from the buffer and what the socket took of it. -/
structure Echo where
  session : Session
  incoming : Flow UInt8
  messages : List Bytes
  replies : List Bytes

namespace Echo

def connection (s : Echo) : Connection := s.session.site.connection
def inputBuffer (s : Echo) : Buffer := s.connection.inputBuffer

/-- `handleRead` at the read condition, with the callback it calls. -/
def handleRead (s : Echo) (answer : Answer) (write : Bytes → WriteAnswer) :
    Except Fault Echo := do
  let (site, effects) ← s.session.site.handleRead (answer.readv s.incoming.inFlight)
  let incoming := s.incoming.read answer.consumed
  if Effect.messageCallback ∈ effects then
    let (site, sent, msg) ← onMessage site write
    return {
      session := s.session.advance (site, effects ++ sent) .writeTest
      incoming := incoming
      messages := s.messages ++ [msg]
      replies := s.replies ++ [taken sent] }
  else
    return { s with
      session := s.session.advance (site, effects) .writeTest
      incoming := incoming }

end Echo

inductive Action where
  | clientSends (data : Bytes)
  | handleEvent (revents : EventMask) (alive : Bool)
  | condition (write : Bytes → WriteAnswer)
  | readCondition (answer : Answer) (write : Bytes → WriteAnswer)
  | connectDestroyed

/-- The kernel delivers what fits the vectors and what it has. -/
def Delivers (s : Echo) : Answer → Prop
  | .count n => n ≤ s.inputBuffer.vectors.sum ∧ n ≤ s.incoming.inFlight.length
  | .failed _ => True

instance (s : Echo) : (answer : Answer) → Decidable (Delivers s answer)
  | .count _ => inferInstanceAs (Decidable (_ ∧ _))
  | .failed _ => isTrue trivial

/-- The conditions before and after the one that reads read nothing. -/
def step (s : Echo) : Action → Option Echo
  | .clientSends data => some { s with incoming := s.incoming.write data }
  | .handleEvent revents alive =>
      (CallbackProtocol.step s.session (.handleEvent revents alive)).map fun session =>
        { s with session := session }
  | .condition write =>
      if s.session.stage ≠ .readTest then
        (handleEventWithGuard s.session (fun _ => .failed .EWOULDBLOCK) write).map fun session =>
          { s with session := session }
      else none
  | .readCondition answer write =>
      if s.session.stage = .readTest ∧ Delivers s answer then
        if firesRead s.session.revents then (s.handleRead answer write).toOption
        else some { s with session := s.session.advance (s.session.site, []) .writeTest }
      else none
  | .connectDestroyed =>
      (CallbackProtocol.step s.session .connectDestroyed).map fun session =>
        { s with session := session }

/-- A connection the server has just established; nothing has arrived on it. -/
def start (c : Connection) (p : EPollPoller ℕ) : Echo :=
  ⟨CallbackProtocol.start c p, .empty, [], []⟩

/-- The messages are the part of the client's stream that has been read, in
order and none of it left behind; the bytes the socket took are the replies, one
for each message and the front of it. -/
structure Faithful (s : Echo) : Prop where
  messages : s.messages.flatten = s.incoming.delivered
  empty : s.inputBuffer.content = []
  replies : s.replies.flatten = taken s.session.trace
  fronts : List.Forall₂ (fun reply msg => reply <+: msg) s.replies s.messages

/-- A connection without input or output that does not watch for writing. -/
structure Resting (c : Connection) : Prop where
  valid : c.inputBuffer.Valid
  empty : c.inputBuffer.content = []
  idle : c.channel.isWriting = false
  unsent : c.outputBuffer.readableBytes = 0
  drained : c.outputBuffer.content = []

theorem isWriting_of_events {c d : Connection} (h : c.channel.events = d.channel.events) :
    c.channel.isWriting = d.channel.isWriting := by
  unfold Channel.isWriting
  rw [h]

theorem Resting.direct {c : Connection} (h : Resting c) (hstate : c.state = .kConnected) :
    Direct c where
  alive := by simp [hstate]
  idle := h.idle
  empty := h.unsent
  drained := h.drained

/-- The buffers stay, and the channel watches for writing no more than before. -/
theorem Resting.same {c d : Connection} (h : Resting c) (hin : d.inputBuffer = c.inputBuffer)
    (hout : d.outputBuffer = c.outputBuffer) (hw : d.channel.isWriting = false) : Resting d where
  valid := hin ▸ h.valid
  empty := hin ▸ h.empty
  idle := hw
  unsent := hout ▸ h.unsent
  drained := hout ▸ h.drained

theorem Resting.handleClose {s : Site} (h : Resting s.connection) :
    Resting s.handleClose.1.connection := by
  refine h.same rfl rfl ?_
  have hevents : s.handleClose.1.connection.channel.events = kNoneEvent :=
    Channel.setEvents_events ..
  rw [Channel.isWriting, hevents]
  decide

theorem Resting.connectDestroyed {s : Site} (h : Resting s.connection) :
    Resting s.connectDestroyed.1.connection := by
  unfold Site.connectDestroyed
  split_ifs
  · have hevents : (((s.setState .kDisconnected).onChannel Channel.disableAll).onChannel
        Channel.remove).connection.channel.events = kNoneEvent :=
      (Channel.remove_events ..).trans (Channel.setEvents_events ..)
    refine h.same rfl rfl ?_
    rw [Channel.isWriting, hevents]
    decide
  · refine h.same rfl rfl ?_
    rw [← h.idle]
    exact isWriting_of_events (Channel.remove_events ..)

/-- What a session that serves no message does to the connection and the trace. -/
structure Aside (s t : Session) : Prop where
  resting : Resting t.site.connection
  trace : taken t.trace = taken s.trace

theorem aside_advance {s : Session} {r : Site × List Effect} (hr : Resting r.1.connection)
    (heffects : taken r.2 = []) (stage : Stage) : Aside s (s.advance r stage) where
  resting := hr
  trace := by
    show taken (s.trace ++ r.2) = taken s.trace
    rw [ConnectionOutput.taken_append, heffects, List.append_nil]

theorem handleEvent_aside {s t : Session} (h : Resting s.site.connection) {revents : EventMask}
    {alive : Bool} (ht : CallbackProtocol.step s (.handleEvent revents alive) = some t) :
    Aside s t := by
  simp only [CallbackProtocol.step, Option.ite_none_right_eq_some, Option.some.injEq] at ht
  rw [← ht.2]
  exact ⟨h.same rfl rfl h.idle, rfl⟩

theorem connectDestroyed_aside {s t : Session} (h : Resting s.site.connection)
    (ht : CallbackProtocol.step s .connectDestroyed = some t) : Aside s t := by
  cases ht
  apply aside_advance h.connectDestroyed
  unfold Site.connectDestroyed
  split_ifs <;> rfl

/-- The conditions that do not read: close, error and write. -/
theorem condition_aside {s t : Session} (h : Resting s.site.connection)
    (hstage : s.stage ≠ .readTest) {readv : List ℕ → ReadvAnswer} {write : Bytes → WriteAnswer}
    (ht : handleEventWithGuard s readv write = some t) : Aside s t := by
  unfold handleEventWithGuard at ht
  cases hs : s.stage with
  | idle =>
      rw [hs] at ht
      cases ht
  | closeTest =>
      rw [hs] at ht
      rw [← Option.some.inj ht]
      split_ifs
      · exact aside_advance h.handleClose rfl _
      · exact aside_advance h rfl _
  | errorTest =>
      rw [hs] at ht
      rw [← Option.some.inj ht]
      split_ifs
      · exact aside_advance h rfl _
      · exact aside_advance h rfl _
  | readTest => exact absurd hs hstage
  | writeTest =>
      have hnone : s.site.connection.handleWrite write = .ok (s.site.connection, []) := by
        rw [Connection.handleWrite, h.idle]
        rfl
      simp only [hs, hnone] at ht
      split_ifs at ht
      · rw [← Option.some.inj ht]
        exact aside_advance h rfl _
      · rw [← Option.some.inj ht]
        exact aside_advance h rfl _

/-- A message is sent once and at once, if the connection is connected. -/
theorem Resting.send {c : Connection} (h : Resting c) (msg : Bytes)
    (write : Bytes → WriteAnswer) :
    (c.send true msg write).1 = c ∧ taken (c.send true msg write).2 =
      if c.state = .kConnected then (write msg).taken msg else [] := by
  unfold Connection.send
  by_cases hstate : c.state = .kConnected
  · rw [if_pos hstate, if_pos rfl, if_pos hstate]
    exact ConnectionOutput.sendInLoop_direct (h.direct hstate) msg write
  · rw [if_neg hstate, if_neg hstate]
    exact ⟨rfl, rfl⟩

/-- The callback empties the buffer and sends what was in it. -/
theorem onMessage_eq {s : Site} (hv : s.connection.inputBuffer.Valid)
    (hw : s.connection.channel.isWriting = false)
    (hunsent : s.connection.outputBuffer.readableBytes = 0)
    (hdrained : s.connection.outputBuffer.content = []) (write : Bytes → WriteAnswer) :
    ∃ t effects, onMessage s write = .ok (t, effects, s.connection.inputBuffer.content) ∧
      Resting t.connection ∧ taken effects =
        if s.connection.state = .kConnected then
          (write s.connection.inputBuffer.content).taken s.connection.inputBuffer.content
        else [] := by
  have hlength := hv.length_content
  have hall : s.connection.inputBuffer.content.take s.connection.inputBuffer.readableBytes =
      s.connection.inputBuffer.content := List.take_of_length_le hlength.le
  have hretrieve := QueueRefinement.retrieveAsString_eq hv (le_refl _)
  rw [hall] at hretrieve
  obtain ⟨hvalid, hcontent⟩ := hv.retrieve s.connection.inputBuffer.readableBytes
  rw [List.drop_eq_nil_of_le hlength.le] at hcontent
  have hrest : Resting (s.withInput
      (s.connection.inputBuffer.retrieve s.connection.inputBuffer.readableBytes)).connection :=
    ⟨hvalid, hcontent, hw, hunsent, hdrained⟩
  obtain ⟨r, hr⟩ : ∃ r, r = (s.withInput (s.connection.inputBuffer.retrieve
      s.connection.inputBuffer.readableBytes)).connection.send true
        s.connection.inputBuffer.content write := ⟨_, rfl⟩
  obtain ⟨hsame, htaken⟩ := hrest.send s.connection.inputBuffer.content write
  rw [← hr] at hsame htaken
  refine ⟨⟨r.1, s.poller⟩, r.2, ?_, hsame.symm ▸ hrest, htaken⟩
  rw [onMessage, Buffer.retrieveAllAsString, hretrieve, hr]
  rfl

/-- What the socket takes of a message on this connection. -/
def Echo.replyTo (s : Echo) (msg : Bytes) (write : Bytes → WriteAnswer) : Bytes :=
  if s.connection.state = .kConnected then (write msg).taken msg else []

/-- A read of the end of the stream, or one that fails, calls no callback of the
user. -/
theorem handleRead_silent {s : Echo} (h : Resting s.connection) {answer : Answer}
    (hnone : answer.consumed = 0) (write : Bytes → WriteAnswer) :
    ∃ session, s.handleRead answer write = .ok { s with
        session := session, incoming := s.incoming.read answer.consumed } ∧
      Aside s.session session := by
  cases answer with
  | count n =>
      obtain rfl : n = 0 := hnone
      have hread : (Answer.count 0).readv s.incoming.inFlight s.inputBuffer.vectors =
          .delivered [] := rfl
      obtain ⟨b, hb, hvalid, hcontent⟩ := h.valid.readFd hread (Nat.zero_le _)
      have hclosed := Site.handleRead_eq_ok.mpr ⟨b, .count 0, hb, rfl⟩
      rw [h.empty, List.append_nil] at hcontent
      have hrest : Resting (s.session.site.withInput b).connection :=
        ⟨hvalid, hcontent, h.idle, h.unsent, h.drained⟩
      refine ⟨s.session.advance (s.session.site.withInput b).handleClose .writeTest, ?_,
        aside_advance hrest.handleClose rfl _⟩
      rw [Echo.handleRead, hclosed]
      rfl
  | failed errno =>
      have hread : (Answer.failed errno).readv s.incoming.inFlight s.inputBuffer.vectors =
          .failed errno := rfl
      have hfailed := Site.handleRead_eq_ok.mpr ⟨_, _, Buffer.readFd_failed hread, rfl⟩
      refine ⟨s.session.advance (s.session.site.withInput s.inputBuffer, []) .writeTest, ?_,
        aside_advance (h.same rfl rfl h.idle) rfl _⟩
      rw [Echo.handleRead, hfailed]
      rfl

/-- A read that delivers is a message of just those bytes, answered at once. -/
theorem handleRead_message {s : Echo} (h : Resting s.connection) {n : ℕ}
    (hd : Delivers s (.count (n + 1))) (write : Bytes → WriteAnswer) :
    ∃ session, s.handleRead (.count (n + 1)) write = .ok {
        session := session
        incoming := s.incoming.read (n + 1)
        messages := s.messages ++ [s.incoming.inFlight.take (n + 1)]
        replies := s.replies ++ [s.replyTo (s.incoming.inFlight.take (n + 1)) write] } ∧
      Resting session.site.connection ∧
      taken session.trace = taken s.session.trace ++
        s.replyTo (s.incoming.inFlight.take (n + 1)) write := by
  have hlength : (s.incoming.inFlight.take (n + 1)).length = n + 1 := List.length_take_of_le hd.2
  have hread : (Answer.count (n + 1)).readv s.incoming.inFlight s.inputBuffer.vectors =
      .delivered (s.incoming.inFlight.take (n + 1)) := rfl
  obtain ⟨b, hb, hvalid, hcontent⟩ := h.valid.readFd hread (hlength.trans_le hd.1)
  rw [h.empty, List.nil_append] at hcontent
  rw [hlength] at hb
  have hdelivered := Site.handleRead_eq_ok.mpr ⟨b, .count (n + 1), hb, rfl⟩
  obtain ⟨t, effects, hcall, hrest, htaken⟩ := onMessage_eq
    (s := s.session.site.withInput b) hvalid h.idle h.unsent h.drained write
  have hmsg : (s.session.site.withInput b).connection.inputBuffer.content =
      s.incoming.inFlight.take (n + 1) := hcontent
  rw [hmsg] at hcall htaken
  have hreply : taken effects = s.replyTo (s.incoming.inFlight.take (n + 1)) write := htaken
  refine ⟨s.session.advance (t, [.messageCallback] ++ effects) .writeTest, ?_, hrest, ?_⟩
  · rw [← hreply, Echo.handleRead, hdelivered]
    simp only [bind, Except.bind, List.mem_singleton, if_true, hcall]
    rfl
  · rw [← hreply]
    show taken (s.session.trace ++ ([.messageCallback] ++ effects)) = _
    rw [ConnectionOutput.taken_append, ConnectionOutput.taken_append]
    rfl

/-- The invariant of a run. -/
structure Serving (s : Echo) : Prop where
  resting : Resting s.connection
  messages : s.messages.flatten = s.incoming.delivered
  replies : s.replies.flatten = taken s.session.trace
  fronts : List.Forall₂ (fun reply msg => reply <+: msg) s.replies s.messages

theorem Serving.faithful {s : Echo} (h : Serving s) : Faithful s :=
  ⟨h.messages, h.resting.empty, h.replies, h.fronts⟩

theorem Serving.aside {s : Echo} (h : Serving s) {session : Session}
    (k : Aside s.session session) : Serving { s with session := session } where
  resting := k.resting
  messages := h.messages
  replies := h.replies.trans k.trace.symm
  fronts := h.fronts

theorem replyTo_isPrefix (s : Echo) (msg : Bytes) (write : Bytes → WriteAnswer) :
    s.replyTo msg write <+: msg := by
  unfold Echo.replyTo
  split_ifs
  · cases write msg with
    | accepted count => exact List.take_prefix _ _
    | failed errno => exact List.nil_prefix
  · exact List.nil_prefix

theorem Serving.handleRead {s : Echo} (h : Serving s) {answer : Answer} (hd : Delivers s answer)
    (write : Bytes → WriteAnswer) : ∃ t, s.handleRead answer write = .ok t ∧ Serving t ∧
      (answer.consumed = 0 → t.messages = s.messages ∧ t.replies = s.replies) ∧
      (answer.consumed ≠ 0 →
        t.messages = s.messages ++ [s.incoming.inFlight.take answer.consumed] ∧
        t.replies = s.replies ++
          [s.replyTo (s.incoming.inFlight.take answer.consumed) write]) := by
  by_cases hnone : answer.consumed = 0
  · obtain ⟨session, ht, haside⟩ := handleRead_silent h.resting hnone write
    refine ⟨_, ht, ?_, fun _ => ⟨rfl, rfl⟩, fun hsome => absurd hnone hsome⟩
    constructor
    · exact haside.resting
    · show s.messages.flatten = (s.incoming.read answer.consumed).delivered
      rw [Flow.delivered_read, hnone, List.take_zero, List.append_nil, h.messages]
    · exact h.replies.trans haside.trace.symm
    · exact h.fronts
  · cases answer with
    | failed errno => exact absurd rfl hnone
    | count n =>
        obtain ⟨m, rfl⟩ := Nat.exists_eq_succ_of_ne_zero hnone
        obtain ⟨session, ht, hrest, htaken⟩ := handleRead_message h.resting hd write
        refine ⟨_, ht, ?_, fun hzero => absurd hzero hnone, fun _ => ⟨rfl, rfl⟩⟩
        constructor
        · exact hrest
        · show (s.messages ++ [_]).flatten = (s.incoming.read (m + 1)).delivered
          rw [List.flatten_append, List.flatten_singleton, h.messages, Flow.delivered_read]
        · show (s.replies ++ [_]).flatten = taken session.trace
          rw [List.flatten_append, List.flatten_singleton, h.replies, htaken]
        · exact List.rel_append h.fronts (.cons (replyTo_isPrefix ..) .nil)

theorem start_serving {c : Connection} (hc : c.Fresh) (p : EPollPoller ℕ) :
    Serving (start c p) where
  resting := by
    obtain ⟨hvalid, hcontent⟩ := Buffer.initial_valid
    have hdirect := ConnectionOutput.established_direct hc p
    have hinput : (start c p).connection.inputBuffer = Buffer.initial := hc.input
    exact ⟨hinput ▸ hvalid, hinput ▸ hcontent, hdirect.idle, hdirect.empty, hdirect.drained⟩
  messages := rfl
  replies := rfl
  fronts := .nil

theorem step_serving (s : Echo) (a : Action) (t : Echo) (h : Serving s) (ht : step s a = some t) :
    Serving t := by
  cases a with
  | clientSends data =>
      rw [← Option.some.inj ht]
      exact ⟨h.resting, by rw [Flow.delivered_write, h.messages], h.replies, h.fronts⟩
  | handleEvent revents alive =>
      obtain ⟨session, hsession, rfl⟩ := Option.map_eq_some_iff.mp ht
      exact h.aside (handleEvent_aside h.resting hsession)
  | condition write =>
      simp only [step, Option.ite_none_right_eq_some] at ht
      obtain ⟨session, hsession, rfl⟩ := Option.map_eq_some_iff.mp ht.2
      exact h.aside (condition_aside h.resting ht.1 hsession)
  | readCondition answer write =>
      simp only [step, Option.ite_none_right_eq_some] at ht
      obtain ⟨⟨-, hd⟩, ht⟩ := ht
      split_ifs at ht
      · obtain ⟨u, hu, hserving, -⟩ := h.handleRead hd write
        rw [hu] at ht
        exact Option.some.inj ht ▸ hserving
      · rw [← Option.some.inj ht]
        exact h.aside (aside_advance h.resting rfl _)
  | connectDestroyed =>
      cases ht
      exact h.aside (connectDestroyed_aside h.resting rfl)

/-- On every connection and in every run the user has, in order, exactly the
part of the client's stream that was read, nothing waits in the input buffer,
and what goes back is the front of each message in turn. -/
theorem echo_faithful {c : Connection} (hc : c.Fresh) (p : EPollPoller ℕ) (as : List Action) :
    Throughout step Faithful (start c p) as :=
  (throughout_of_step step_serving as (start_serving hc p)).imp fun _ h => h.faithful

/-- A message is read only while the connection is connected, and the one
`::write` its reply gets takes all of it. -/
def AnsweredWhole (s : Echo) : Action → Prop
  | .readCondition (.count (n + 1)) write =>
      firesRead s.session.revents = true → s.connection.state = .kConnected ∧
        (write (s.incoming.inFlight.take (n + 1))).taken (s.incoming.inFlight.take (n + 1)) =
          s.incoming.inFlight.take (n + 1)
  | .readCondition (.count 0) _ | .readCondition (.failed _) _ | .clientSends _
  | .handleEvent .. | .condition _ | .connectDestroyed => True

instance (s : Echo) : (a : Action) → Decidable (AnsweredWhole s a)
  | .readCondition (.count (_ + 1)) _ => inferInstanceAs (Decidable (_ → _ ∧ _))
  | .readCondition (.count 0) _ | .readCondition (.failed _) _ | .clientSends _
  | .handleEvent .. | .condition _ | .connectDestroyed => isTrue trivial

/-- The client gets back what it sent, as far as it has been read. -/
def Echoes (s : Echo) : Prop := s.replies = s.messages

theorem replyTo_eq_iff (s : Echo) {msg : Bytes} (hmsg : msg ≠ []) (write : Bytes → WriteAnswer) :
    s.replyTo msg write = msg ↔ s.connection.state = .kConnected ∧ (write msg).taken msg = msg := by
  unfold Echo.replyTo
  split_ifs with hstate
  · simp [hstate]
  · simp [hstate, hmsg.symm]

/-- The reply to one message is the message exactly if it is answered whole. -/
theorem step_echoes {s t : Echo} {a : Action} (h : Serving s) (hs : Echoes s)
    (ht : step s a = some t) : Echoes t ↔ AnsweredWhole s a := by
  unfold Echoes at hs ⊢
  cases a with
  | clientSends data =>
      rw [← Option.some.inj ht]
      exact iff_of_true hs trivial
  | handleEvent revents alive =>
      obtain ⟨session, -, rfl⟩ := Option.map_eq_some_iff.mp ht
      exact iff_of_true hs trivial
  | condition write =>
      simp only [step, Option.ite_none_right_eq_some] at ht
      obtain ⟨session, -, rfl⟩ := Option.map_eq_some_iff.mp ht.2
      exact iff_of_true hs trivial
  | connectDestroyed =>
      cases ht
      exact iff_of_true hs trivial
  | readCondition answer write =>
      simp only [step, Option.ite_none_right_eq_some] at ht
      obtain ⟨⟨-, hd⟩, ht⟩ := ht
      split_ifs at ht with hfires
      · obtain ⟨u, hu, -, hnone, hsome⟩ := h.handleRead hd write
        rw [hu] at ht
        obtain rfl : u = t := Option.some.inj ht
        cases answer with
        | failed errno =>
            obtain ⟨hmessages, hreplies⟩ := hnone rfl
            rw [hmessages, hreplies]
            exact iff_of_true hs trivial
        | count n =>
            cases n with
            | zero =>
                obtain ⟨hmessages, hreplies⟩ := hnone rfl
                rw [hmessages, hreplies]
                exact iff_of_true hs trivial
            | succ n =>
                obtain ⟨hmessages, hreplies⟩ := hsome (Nat.succ_ne_zero n)
                have hlength : (s.incoming.inFlight.take (n + 1)).length = n + 1 :=
                  List.length_take_of_le hd.2
                have hmsg : s.incoming.inFlight.take (n + 1) ≠ [] := by
                  intro hnil
                  rw [hnil] at hlength
                  cases hlength
                rw [hmessages, hreplies, hs, List.append_right_inj, List.singleton_inj]
                exact (replyTo_eq_iff s hmsg write).trans (by simp [AnsweredWhole, hfires])
      · rw [← Option.some.inj ht]
        refine iff_of_true hs ?_
        rcases answer with ⟨_ | n⟩ | errno
        · trivial
        · exact fun hyes => absurd hyes hfires
        · trivial

/-- At every point of a run the client has been sent back exactly what was read
of its stream, if and only if every message was read on a connected connection
and written whole at once. -/
theorem echoes_iff {c : Connection} (hc : c.Fresh) (p : EPollPoller ℕ) {t : Echo}
    {as : List Action} (h : run step (start c p) as = some t) :
    Throughout step Echoes (start c p) as ↔ Meets step AnsweredWhole (start c p) as := by
  have hkeep : ∀ s a u, Serving s ∧ Echoes s → AnsweredWhole s a → step s a = some u →
      Serving u ∧ Echoes u := by
    intro s a u hs ha hu
    exact ⟨step_serving s a u hs.1 hu, (step_echoes hs.1 hs.2 hu).mpr ha⟩
  have hneed : ∀ s a u, Serving s ∧ Echoes s → step s a = some u → Echoes u →
      AnsweredWhole s a := by
    intro s a u hs hu hechoes
    exact (step_echoes hs.1 hs.2 hu).mp hechoes
  exact throughout_iff_meets hkeep hneed (fun _ hs => hs.2) ⟨start_serving hc p, rfl⟩ h

/-- Five bytes in two messages, the second answered short. -/
def shortReply : List Action :=
  [.clientSends [1, 2, 3, 4, 5], .handleEvent EPOLLIN true, .condition fun _ => .accepted 0,
    .condition fun _ => .accepted 0, .readCondition (.count 3) fun _ => .accepted 3,
    .condition fun _ => .accepted 0, .handleEvent EPOLLIN true, .condition fun _ => .accepted 0,
    .condition fun _ => .accepted 0, .readCondition (.count 2) fun _ => .accepted 1]

theorem echo_faithful_shortReply :
    Throughout step Faithful (start (Connection.create "c" 3 0) EPollPoller.create) shortReply :=
  echo_faithful (Connection.create_fresh _ _ _) _ _

theorem echoes_iff_shortReply :
    Throughout step Echoes (start (Connection.create "c" 3 0) EPollPoller.create) shortReply ↔
      Meets step AnsweredWhole (start (Connection.create "c" 3 0) EPollPoller.create)
        shortReply := by
  obtain ⟨t, ht⟩ := Option.isSome_iff_exists.mp (by decide +kernel :
    (run step (start (Connection.create "c" 3 0) EPollPoller.create) shortReply).isSome = true)
  exact echoes_iff (Connection.create_fresh _ _ _) _ ht

/-- The last byte was read and is not sent back. -/
example : ∃ t ∈ run step (start (Connection.create "c" 3 0) EPollPoller.create) shortReply,
    t.messages = [[1, 2, 3], [4, 5]] ∧ t.replies = [[1, 2, 3], [4]] := by
  decide +kernel

end Netmux.EchoServer
