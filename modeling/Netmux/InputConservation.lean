import Netmux.CallbackProtocol
import Netmux.QueueRefinement

/-!
# No byte of the input stream is lost

A peer's byte stream on its way through the kernel, the input buffer and the
message callbacks of one established connection. A `::readv` may deliver any
number of bytes that fits its vectors, zero included, or fail and deliver none.
A callback may retrieve what it likes, as often as it likes; it may do so at any
point here, not only while `handleRead` is calling it. Everything else that runs
on the connection is mixed in as well.

What the callbacks have retrieved, what the buffer holds and what the kernel
still has are at every point the peer's stream, cut in three.
-/
namespace Netmux.InputConservation
open ActionRuns SocketBuffer ChannelPoller TcpConnection CallbackProtocol

/-- The kernel's side of one `::readv`. -/
inductive Answer where
  | count (n : ℕ)
  | failed (errno : Errno)

namespace Answer

/-- How many bytes leave the kernel. -/
def consumed : Answer → ℕ
  | count n => n
  | failed _ => 0

def readv (unread : Bytes) (answer : Answer) (_ : List ℕ) : ReadvAnswer :=
  match answer with
  | count n => .delivered (unread.take n)
  | failed errno => .failed errno

end Answer

/-- A callback takes bytes out of the buffer it was given. -/
inductive Retrieval where
  | retrieve (len : ℕ)
  | retrieveAsString (len : ℕ)
  | retrieveAllAsString

/-- The buffer after a retrieval and the bytes the callback has got; with
`retrieve` these are the ones it could see at `peek()`. -/
def Retrieval.perform (b : Buffer) : Retrieval → Except Fault (Buffer × Bytes)
  | retrieve len => do
      let seen ← b.peek (min len b.readableBytes)
      return (b.retrieve len, seen)
  | retrieveAsString len => b.retrieveAsString len
  | retrieveAllAsString => b.retrieveAllAsString

/-- What runs on the connection besides reading. -/
inductive Method where
  | handleWrite (write : Bytes → WriteAnswer)
  | handleClose
  | handleError
  | sendInLoop (data : Bytes) (write : Bytes → WriteAnswer)
  | shutdownInLoop
  | send (inLoopThread : Bool) (buf : Bytes) (write : Bytes → WriteAnswer)
  | shutdown (inLoopThread : Bool)
  | connectDestroyed

/-- The outcome of a method that touches the connection only. -/
def onConnection (s : Site) (r : Connection × List Effect) : Site × List Effect :=
  (⟨r.1, s.poller⟩, r.2)

def Method.call (s : Site) : Method → Except Fault (Site × List Effect)
  | handleWrite write => (s.connection.handleWrite write).map (onConnection s)
  | handleClose => .ok s.handleClose
  | handleError => .ok s.handleError
  | sendInLoop data write => .ok (onConnection s (s.connection.sendInLoop data write))
  | shutdownInLoop => .ok (onConnection s s.connection.shutdownInLoop)
  | send inLoopThread buf write =>
      .ok (onConnection s (s.connection.send inLoopThread buf write))
  | shutdown inLoopThread => .ok (onConnection s (s.connection.shutdown inLoopThread))
  | connectDestroyed => .ok s.connectDestroyed

structure Reception where
  site : Site
  retrieved : Bytes
  unread : Bytes
  trace : List Effect

namespace Reception

def inputBuffer (s : Reception) : Buffer := s.site.connection.inputBuffer

/-- How often `messageCallback_` has been called. -/
def messages (s : Reception) : ℕ := s.trace.count .messageCallback

def afterRead (s : Reception) (consumed : ℕ) (r : Site × List Effect) : Reception :=
  { s with site := r.1, unread := s.unread.drop consumed, trace := s.trace ++ r.2 }

def afterRetrieval (s : Reception) (r : Buffer × Bytes) : Reception :=
  { s with site := s.site.withInput r.1, retrieved := s.retrieved ++ r.2 }

def afterMethod (s : Reception) (r : Site × List Effect) : Reception :=
  { s with site := r.1, trace := s.trace ++ r.2 }

end Reception

inductive Action where
  | readEvent (answer : Answer)
  | retrieval (r : Retrieval)
  | method (m : Method)

/-- The kernel delivers what fits the vectors and what it has; no callback
reads a string longer than the readable bytes. -/
def Allowed (s : Reception) : Action → Prop
  | .readEvent (.count n) => n ≤ s.inputBuffer.vectors.sum ∧ n ≤ s.unread.length
  | .retrieval (.retrieveAsString len) => len ≤ s.inputBuffer.readableBytes
  | .readEvent (.failed _) | .retrieval (.retrieve _) | .retrieval .retrieveAllAsString
  | .method _ => True

instance (s : Reception) : (a : Action) → Decidable (Allowed s a)
  | .readEvent (.count _) => inferInstanceAs (Decidable (_ ∧ _))
  | .retrieval (.retrieveAsString _) => inferInstanceAs (Decidable (_ ≤ _))
  | .readEvent (.failed _) | .retrieval (.retrieve _) | .retrieval .retrieveAllAsString
  | .method _ => isTrue trivial

def perform (s : Reception) : Action → Except Fault Reception
  | .readEvent answer =>
      (s.site.handleRead (answer.readv s.unread)).map (s.afterRead answer.consumed)
  | .retrieval r => (r.perform s.inputBuffer).map s.afterRetrieval
  | .method m => (m.call s.site).map s.afterMethod

def step (s : Reception) (a : Action) : Option Reception :=
  if Allowed s a then (perform s a).toOption else none

/-- The peer's stream is cut into what the callbacks have retrieved, what the
buffer holds and what the kernel still has. -/
def Conserved (stream : Bytes) (s : Reception) : Prop :=
  s.retrieved ++ s.inputBuffer.content ++ s.unread = stream

/-- How often the action should call `messageCallback_`. -/
def expectedMessages : Action → ℕ
  | .readEvent (.count (_ + 1)) => 1
  | _ => 0

/-- The action goes through; it calls the message callback once if it reads
anything and not otherwise; and a failing read leaves the buffer as it was. -/
def Right (s : Reception) (a : Action) : Prop :=
  Allowed s a → ∃ t, step s a = some t ∧ t.messages = s.messages + expectedMessages a ∧
    ∀ errno, a = .readEvent (.failed errno) → t.inputBuffer = s.inputBuffer

def start (c : Connection) (p : EPollPoller ℕ) (stream : Bytes) : Reception :=
  ⟨Site.established c p, [], stream, []⟩

/-- The invariant of a run. -/
structure Receiving (stream : Bytes) (s : Reception) : Prop where
  input : s.inputBuffer.Valid
  output : s.site.connection.outputBuffer.Valid
  conserved : Conserved stream s

theorem step_of_perform {s t : Reception} {a : Action} (ha : Allowed s a)
    (h : perform s a = .ok t) : step s a = some t := by
  rw [step, if_pos ha, h]
  rfl

/-- A method goes through, leaves both buffers as they were and calls no
message callback. -/
def Apart (s : Site) (r : Except Fault (Site × List Effect)) : Prop :=
  ∃ t effects, r = .ok (t, effects) ∧ t.connection.inputBuffer = s.connection.inputBuffer ∧
    t.connection.outputBuffer = s.connection.outputBuffer ∧ effects.count .messageCallback = 0

theorem quiet_messages {effects : List Effect} (h : Quiet effects) :
    effects.count .messageCallback = 0 := by
  apply List.count_eq_zero.mpr
  intro hmem
  have hvisible : Effect.messageCallback ∈ callbacks effects := List.mem_filter.mpr ⟨hmem, rfl⟩
  rw [h.1] at hvisible
  cases hvisible

theorem apart_onConnection (s : Site) {r : Connection × List Effect}
    (h : r.1 = s.connection ∧ Quiet r.2) : Apart s (.ok (onConnection s r)) := by
  obtain ⟨c, effects⟩ := r
  obtain ⟨rfl, hq⟩ := h
  exact ⟨s, effects, rfl, rfl, rfl, quiet_messages hq⟩

theorem handleWrite_ok {c : Connection} (h : c.outputBuffer.Valid) (write : Bytes → WriteAnswer) :
    ∃ r, c.handleWrite write = .ok r := by
  unfold Connection.handleWrite
  split_ifs
  · rw [Buffer.writeFd, h.peek_eq le_rfl]
    exact ⟨_, rfl⟩
  · exact ⟨_, rfl⟩

theorem shutdown_apart (s : Site) (inLoopThread : Bool) :
    Apart s (.ok (onConnection s (s.connection.shutdown inLoopThread))) := by
  unfold Connection.shutdown Connection.shutdownInLoop
  split_ifs
  · refine ⟨_, _, rfl, rfl, rfl, ?_⟩
    dsimp only [onConnection]
    split_ifs <;> rfl
  · exact ⟨_, _, rfl, rfl, rfl, rfl⟩
  · exact ⟨_, _, rfl, rfl, rfl, rfl⟩

theorem connectDestroyed_apart (s : Site) : Apart s (.ok s.connectDestroyed) := by
  unfold Site.connectDestroyed
  split_ifs <;> exact ⟨_, _, rfl, rfl, rfl, rfl⟩

theorem call_apart {s : Site} (h : s.connection.outputBuffer.Valid) (m : Method) :
    Apart s (m.call s) := by
  cases m with
  | handleWrite write =>
      obtain ⟨r, hr⟩ := handleWrite_ok h write
      rw [Method.call, hr]
      exact apart_onConnection s (quiet_handleWrite hr)
  | handleClose => exact ⟨_, _, rfl, rfl, rfl, rfl⟩
  | handleError => exact ⟨_, _, rfl, rfl, rfl, rfl⟩
  | sendInLoop data write => exact apart_onConnection s (quiet_sendInLoop _ data write)
  | shutdownInLoop => exact apart_onConnection s (quiet_shutdownInLoop _)
  | send inLoopThread buf write =>
      exact apart_onConnection s (quiet_send _ inLoopThread buf write)
  | shutdown inLoopThread => exact shutdown_apart s inLoopThread
  | connectDestroyed => exact connectDestroyed_apart s

/-- A retrieval goes through and takes bytes off the front. -/
theorem perform_retrieval {b : Buffer} (h : b.Valid) (r : Retrieval)
    (hlen : ∀ len, r = .retrieveAsString len → len ≤ b.readableBytes) :
    ∃ b' data, r.perform b = .ok (b', data) ∧ b'.Valid ∧ data ++ b'.content = b.content := by
  cases r with
  | retrieve len =>
      obtain ⟨hv, hc⟩ := h.retrieve len
      have hmin : b.content.take (min len b.readableBytes) = b.content.take len := by
        rw [← h.length_content, ← List.take_eq_take_min]
      refine ⟨b.retrieve len, b.content.take len, ?_, hv, ?_⟩
      · rw [Retrieval.perform, h.peek_eq (min_le_right _ _), hmin]
        rfl
      · rw [hc, List.take_append_drop]
  | retrieveAsString len =>
      obtain ⟨hv, hc⟩ := h.retrieve len
      refine ⟨_, _, QueueRefinement.retrieveAsString_eq h (hlen len rfl), hv, ?_⟩
      rw [hc, List.take_append_drop]
  | retrieveAllAsString =>
      obtain ⟨hv, hc⟩ := h.retrieve b.readableBytes
      refine ⟨_, _, QueueRefinement.retrieveAsString_eq h le_rfl, hv, ?_⟩
      rw [hc, List.take_append_drop]

/-- A read that delivers is a step: the buffer gains what the kernel loses. -/
theorem read_count {stream : Bytes} {s : Reception} (h : Receiving stream s) {n : ℕ}
    (ha : Allowed s (.readEvent (.count n))) :
    ∃ t, step s (.readEvent (.count n)) = some t ∧ Receiving stream t ∧
      t.messages = s.messages + expectedMessages (.readEvent (.count n)) := by
  have hlen : (s.unread.take n).length = n := List.length_take_of_le ha.2
  have hr : (Answer.count n).readv s.unread s.inputBuffer.vectors = .delivered (s.unread.take n) :=
    rfl
  obtain ⟨b, hb, hv, hc⟩ := h.input.readFd hr (hlen.trans_le ha.1)
  have hstream : s.retrieved ++ b.content ++ s.unread.drop n = stream := by
    rw [hc, ← h.conserved]
    simp only [List.append_assoc, List.take_append_drop]
  rw [hlen] at hb
  have hread := Site.handleRead_eq_ok.mpr ⟨b, .count n, hb, rfl⟩
  cases n with
  | zero =>
      refine ⟨s.afterRead 0 (s.site.withInput b).handleClose, step_of_perform ha ?_,
        ⟨hv, h.output, hstream⟩, ?_⟩
      · rw [perform, hread]
        rfl
      · exact List.count_append ..
  | succ n =>
      refine ⟨s.afterRead (n + 1) (s.site.withInput b, [.messageCallback]),
        step_of_perform ha ?_, ⟨hv, h.output, hstream⟩, ?_⟩
      · rw [perform, hread]
        rfl
      · exact List.count_append ..

/-- A read that fails changes nothing a callback or the peer could notice. -/
theorem read_failed {stream : Bytes} {s : Reception} (h : Receiving stream s) (errno : Errno) :
    ∃ t, step s (.readEvent (.failed errno)) = some t ∧ Receiving stream t ∧
      t.messages = s.messages ∧ t.inputBuffer = s.inputBuffer := by
  have hr : (Answer.failed errno).readv s.unread s.inputBuffer.vectors = .failed errno := rfl
  have hread := Site.handleRead_eq_ok.mpr ⟨_, _, Buffer.readFd_failed hr, rfl⟩
  refine ⟨s.afterRead 0 (s.site.withInput s.inputBuffer, []), step_of_perform trivial ?_,
    ⟨h.input, h.output, h.conserved⟩, ?_, rfl⟩
  · rw [perform, hread]
    rfl
  · exact List.count_append ..

/-- One allowed action. -/
theorem step_right {stream : Bytes} {s : Reception} (h : Receiving stream s) (a : Action)
    (ha : Allowed s a) :
    ∃ t, step s a = some t ∧ Receiving stream t ∧ t.messages = s.messages + expectedMessages a ∧
      ∀ errno, a = .readEvent (.failed errno) → t.inputBuffer = s.inputBuffer := by
  cases a with
  | readEvent answer =>
      cases answer with
      | count n =>
          obtain ⟨t, ht, hrec, hm⟩ := read_count h ha
          exact ⟨t, ht, hrec, hm, by simp⟩
      | failed errno =>
          obtain ⟨t, ht, hrec, hm, hb⟩ := read_failed h errno
          exact ⟨t, ht, hrec, hm, fun _ _ => hb⟩
  | retrieval r =>
      have hlen : ∀ len, r = .retrieveAsString len → len ≤ s.inputBuffer.readableBytes := by
        intro len hr
        subst hr
        exact ha
      obtain ⟨b, data, hb, hv, hc⟩ := perform_retrieval h.input r hlen
      refine ⟨s.afterRetrieval (b, data), step_of_perform ha ?_, ⟨hv, h.output, ?_⟩, rfl, by simp⟩
      · rw [perform, hb]
        rfl
      · show (s.retrieved ++ data) ++ b.content ++ s.unread = stream
        have hs := h.conserved
        rw [Conserved, ← hc] at hs
        simpa only [List.append_assoc] using hs
  | method m =>
      obtain ⟨t, effects, ht, hin, hout, hm⟩ := call_apart h.output m
      refine ⟨s.afterMethod (t, effects), step_of_perform ha ?_, ⟨?_, ?_, ?_⟩, ?_, by simp⟩
      · rw [perform, ht]
        rfl
      · show t.connection.inputBuffer.Valid
        rw [hin]
        exact h.input
      · show t.connection.outputBuffer.Valid
        rw [hout]
        exact h.output
      · show s.retrieved ++ t.connection.inputBuffer.content ++ s.unread = stream
        rw [hin]
        exact h.conserved
      · show (s.trace ++ effects).count .messageCallback = s.messages + 0
        rw [List.count_append, hm]
        rfl

theorem step_receiving (stream : Bytes) (s : Reception) (a : Action) (t : Reception)
    (h : Receiving stream s) (ht : step s a = some t) : Receiving stream t := by
  have ha : Allowed s a := by
    by_contra hno
    rw [step, if_neg hno] at ht
    cases ht
  obtain ⟨u, hu, hrec, -⟩ := step_right h a ha
  exact Option.some.inj (hu.symm.trans ht) ▸ hrec

theorem start_receiving {c : Connection} (hc : c.Fresh) (p : EPollPoller ℕ) (stream : Bytes) :
    Receiving stream (start c p stream) := by
  obtain ⟨hv, hempty⟩ := Buffer.initial_valid
  have hin : (start c p stream).inputBuffer = Buffer.initial := hc.input
  have hout : (start c p stream).site.connection.outputBuffer = Buffer.initial := hc.output
  constructor
  · rw [hin]
    exact hv
  · rw [hout]
    exact hv
  · unfold Conserved
    rw [hin, hempty]
    rfl

/-- On every established connection, for every stream of the peer and however
reads, retrievals and the connection's other methods follow each other, no byte
of the stream is lost, repeated or moved at any point, and every action allowed
is right. -/
theorem input_conserved {c : Connection} (hc : c.Fresh) (p : EPollPoller ℕ) (stream : Bytes)
    (actions : List Action) :
    Throughout step (Conserved stream) (start c p stream) actions ∧
      Meets step Right (start c p stream) actions := by
  have hstart := start_receiving hc p stream
  have hkeep := step_receiving stream
  constructor
  · exact (throughout_of_step hkeep actions hstart).imp fun _ h => h.conserved
  · apply meets_of_step hkeep _ actions hstart
    intro s a h ha
    obtain ⟨t, ht, -, hm, hb⟩ := step_right h a ha
    exact ⟨t, ht, hm, hb⟩

/-- Five bytes in two reads with a failing one between them, a retrieval of two
bytes and one of all that is left. -/
def splitReads : List Action :=
  [.readEvent (.count 3), .retrieval (.retrieve 2), .readEvent (.failed .EWOULDBLOCK),
    .readEvent (.count 2), .retrieval .retrieveAllAsString]

theorem input_conserved_splitReads :
    Throughout step (Conserved [1, 2, 3, 4, 5])
        (start (Connection.create "c" 3 0) EPollPoller.create [1, 2, 3, 4, 5]) splitReads ∧
      Meets step Right (start (Connection.create "c" 3 0) EPollPoller.create [1, 2, 3, 4, 5])
        splitReads :=
  input_conserved (Connection.create_fresh _ _ _) _ _ _

/-- That run goes through, and the callbacks have got everything. -/
example : ∃ t ∈ run step (start (Connection.create "c" 3 0) EPollPoller.create [1, 2, 3, 4, 5])
    splitReads, t.retrieved = [1, 2, 3, 4, 5] ∧ t.messages = 2 := by
  decide +kernel

end Netmux.InputConservation
