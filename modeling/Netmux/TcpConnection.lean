import Netmux.ChannelPoller
import Netmux.SocketBuffer

/-!
# A connection on its loop's thread

The methods of `TcpConnection` that its loop runs. A connection is modelled
together with the poller of its loop, which its channel registers with. What a
method does outside these two is an effect: an invocation of a user callback, a
functor queued on the loop, bytes the socket took, a half-close.

`sendInLoop` changes no member of the connection: the bytes the kernel does not
take are announced to the high-water mark and not stored. `handleWrite` offers
the output buffer to the kernel and retrieves nothing from it. `handleError`
only logs. Callbacks are stored as flags that say whether the function holds a
target; an invocation is an effect either way.
-/
namespace Netmux.TcpConnection
open BoundedMemory SocketBuffer ChannelPoller

inductive StateE where
  | kConnecting | kConnected | kDisconnecting | kDisconnected
  deriving DecidableEq, Repr

inductive Effect where
  | connectionCallback (connected : Bool)
  | messageCallback
  | closeCallback
  | queueWriteComplete
  | queueHighWaterMark (size : ℕ)
  | queueSendInLoop (data : Bytes)
  | queueShutdownInLoop
  | accepted (data : Bytes)
  | shutdownWrite
  deriving DecidableEq, Repr

structure Connection where
  state : StateE
  name : String
  highWaterMark : ℕ
  channel : Channel ℕ
  inputBuffer : Buffer
  outputBuffer : Buffer
  connectionCallback : Bool
  messageCallback : Bool
  writeCompleteCallback : Bool
  closeCallback : Bool
  highWaterMarkCallback : Bool
  deriving DecidableEq, Repr

namespace Connection

/-- The constructor; `address` is where the new channel lives. -/
def create (name : String) (sockfd address : ℕ) : Connection where
  state := .kConnecting
  name := name
  highWaterMark := 64 * 1024 * 1024
  channel := Channel.create address sockfd
  inputBuffer := Buffer.initial
  outputBuffer := Buffer.initial
  connectionCallback := false
  messageCallback := false
  writeCompleteCallback := false
  closeCallback := false
  highWaterMarkCallback := false

/-- Constructed and not yet established, with any callbacks and mark set. -/
structure Fresh (c : Connection) : Prop where
  state : c.state = .kConnecting
  channel : c.channel = Channel.create c.channel.address c.channel.fd
  input : c.inputBuffer = Buffer.initial
  output : c.outputBuffer = Buffer.initial

theorem create_fresh (name : String) (sockfd address : ℕ) :
    (create name sockfd address).Fresh := ⟨rfl, rfl, rfl, rfl⟩

def connected (c : Connection) : Bool := c.state == .kConnected

def setState (c : Connection) (state : StateE) : Connection := { c with state := state }

def setHighWaterMarkCallback (c : Connection) (highWaterMark : ℕ) : Connection :=
  { c with highWaterMarkCallback := true, highWaterMark := highWaterMark }

/-- The last block of `sendInLoop`: a remainder that crosses the mark queues
the high-water callback. -/
def checkHighWaterMark (c : Connection) (remaining : ℕ) : List Effect :=
  let oldLen := c.outputBuffer.readableBytes
  if 0 < remaining ∧ c.highWaterMark ≤ addSize oldLen remaining ∧
      oldLen < c.highWaterMark ∧ c.highWaterMark ≠ 0 then
    [.queueHighWaterMark (addSize oldLen remaining)]
  else []

def sendInLoop (c : Connection) (data : Bytes) (write : Bytes → WriteAnswer) :
    Connection × List Effect :=
  let len := data.length
  if c.state = .kDisconnected then (c, [])
  else if c.channel.isWriting = false ∧ c.outputBuffer.readableBytes = 0 then
    match write data with
    | .accepted nwrote =>
        let remaining := subSize len nwrote
        (c, .accepted (data.take nwrote) ::
          ((if remaining = 0 ∧ c.writeCompleteCallback then [.queueWriteComplete] else []) ++
            c.checkHighWaterMark remaining))
    | .failed errno =>
        (c, if errno = .EPIPE ∨ errno = .ECONNRESET then [] else c.checkHighWaterMark len)
  else (c, c.checkHighWaterMark len)

def shutdownInLoop (c : Connection) : Connection × List Effect :=
  (c, if c.channel.isWriting then [] else [.shutdownWrite])

/-- `send` on the loop's thread or on another one, where it queues itself. -/
def send (c : Connection) (inLoopThread : Bool) (buf : Bytes) (write : Bytes → WriteAnswer) :
    Connection × List Effect :=
  if c.state = .kConnected then
    if inLoopThread then c.sendInLoop buf write else (c, [.queueSendInLoop buf])
  else (c, [])

def shutdown (c : Connection) (inLoopThread : Bool) : Connection × List Effect :=
  if c.state = .kConnected then
    let c := c.setState .kDisconnecting
    if inLoopThread then c.shutdownInLoop else (c, [.queueShutdownInLoop])
  else (c, [])

def handleWrite (c : Connection) (write : Bytes → WriteAnswer) :
    Except Fault (Connection × List Effect) :=
  if c.channel.isWriting then do
    let (_, taken) ← c.outputBuffer.writeFd write
    return (c, [.accepted taken])
  else .ok (c, [])

/-- Nothing that is sent changes a member. -/
@[simp] theorem sendInLoop_fst (c : Connection) (data : Bytes) (write : Bytes → WriteAnswer) :
    (c.sendInLoop data write).1 = c := by
  unfold sendInLoop
  split_ifs
  · rfl
  · cases write data <;> rfl
  · rfl

/-- A connection that is writing or has output makes no call. -/
theorem sendInLoop_busy {c : Connection}
    (h : ¬ (c.channel.isWriting = false ∧ c.outputBuffer.readableBytes = 0)) (data : Bytes)
    (write : Bytes → WriteAnswer) :
    c.sendInLoop data write =
      (c, if c.state = .kDisconnected then [] else c.checkHighWaterMark data.length) := by
  simp only [sendInLoop, if_neg h]
  split_ifs <;> rfl

theorem handleWrite_fst {c : Connection} {write : Bytes → WriteAnswer}
    {r : Connection × List Effect} (h : c.handleWrite write = .ok r) : r.1 = c := by
  unfold handleWrite at h
  split_ifs at h
  · cases hw : c.outputBuffer.writeFd write with
    | error fault =>
        rw [hw] at h
        cases h
    | ok q =>
        rw [hw] at h
        cases h
        rfl
  · cases h
    rfl

/-- A connection that writes offers all of its output and changes nothing. -/
theorem handleWrite_writing {c : Connection} (hw : c.channel.isWriting = true)
    (hv : c.outputBuffer.Valid) (write : Bytes → WriteAnswer) :
    c.handleWrite write =
      .ok (c, [.accepted ((write c.outputBuffer.content).taken c.outputBuffer.content)]) := by
  have hpeek : c.outputBuffer.peek c.outputBuffer.readableBytes = .ok c.outputBuffer.content := by
    rw [hv.peek_eq le_rfl, List.take_of_length_le hv.length_content.le]
  unfold Connection.handleWrite Buffer.writeFd
  rw [if_pos hw, hpeek]
  rfl

theorem handleWrite_eq_ok {c : Connection} (hv : c.outputBuffer.Valid)
    (write : Bytes → WriteAnswer) : ∃ effects, c.handleWrite write = .ok (c, effects) := by
  by_cases hw : c.channel.isWriting = true
  · exact ⟨_, handleWrite_writing hw hv write⟩
  · exact ⟨[], if_neg hw⟩

end Connection

/-- A connection and the poller of the loop that serves it. -/
structure Site where
  connection : Connection
  poller : EPollPoller ℕ

namespace Site

/-- Run an operation of the channel against the poller of the loop. -/
def onChannel (s : Site)
    (operation : Channel ℕ → Ctl ℕ → EPollPoller ℕ → EPollPoller ℕ × Channel ℕ) : Site :=
  let r := operation s.connection.channel epollCtl s.poller
  ⟨{ s.connection with channel := r.2 }, r.1⟩

def setState (s : Site) (state : StateE) : Site := ⟨s.connection.setState state, s.poller⟩

/-- `connectionCallback_(shared_from_this())`, whose reader asks `connected()`. -/
def reportConnection (s : Site) : Effect := .connectionCallback s.connection.connected

def connectEstablished (s : Site) : Site × List Effect :=
  let s := s.setState .kConnected
  let s : Site := ⟨{ s.connection with channel := s.connection.channel.tie }, s.poller⟩
  let s := s.onChannel Channel.enableReading
  (s, [s.reportConnection])

def handleClose (s : Site) : Site × List Effect :=
  let s := (s.setState .kDisconnected).onChannel Channel.disableAll
  (s, [s.reportConnection, .closeCallback])

def connectDestroyed (s : Site) : Site × List Effect :=
  if s.connection.state = .kConnected then
    let s := (s.setState .kDisconnected).onChannel Channel.disableAll
    (s.onChannel Channel.remove, [s.reportConnection])
  else (s.onChannel Channel.remove, [])

/-- Reads the pending socket error and logs it. -/
def handleError (s : Site) : Site × List Effect := (s, [])

def withInput (s : Site) (buffer : Buffer) : Site :=
  ⟨{ s.connection with inputBuffer := buffer }, s.poller⟩

def handleRead (s : Site) (readv : List ℕ → ReadvAnswer) : Except Fault (Site × List Effect) := do
  let (buffer, n) ← s.connection.inputBuffer.readFd readv
  let s := s.withInput buffer
  match n with
  | .count 0 => return s.handleClose
  | .count (_ + 1) => return (s, [.messageCallback])
  | .failed _ => return s.handleError

/-- The site after `connectEstablished()` on a connection. -/
def established (c : Connection) (p : EPollPoller ℕ) : Site :=
  (Site.connectEstablished ⟨c, p⟩).1

/-- `handleRead` returns when `readFd` does, and then branches on its value. -/
theorem handleRead_eq_ok {s : Site} {readv : List ℕ → ReadvAnswer} {r : Site × List Effect} :
    s.handleRead readv = .ok r ↔
      ∃ b n, s.connection.inputBuffer.readFd readv = .ok (b, n) ∧ r = match n with
        | .count 0 => (s.withInput b).handleClose
        | .count (_ + 1) => (s.withInput b, [.messageCallback])
        | .failed _ => (s.withInput b, []) := by
  unfold handleRead
  cases hb : s.connection.inputBuffer.readFd readv with
  | error fault => simp [bind, Except.bind]
  | ok q =>
      obtain ⟨b, n⟩ := q
      simp only [bind, Except.bind, Except.ok.injEq, Prod.mk.injEq]
      constructor
      · intro h
        refine ⟨b, n, ⟨rfl, rfl⟩, ?_⟩
        rcases n with ⟨_ | n⟩ | errno <;> exact (Except.ok.inj h).symm
      · rintro ⟨b', n', ⟨rfl, rfl⟩, rfl⟩
        rcases n with ⟨_ | n⟩ | errno <;> rfl

@[simp] theorem established_state (c : Connection) (p : EPollPoller ℕ) :
    (established c p).connection.state = .kConnected := rfl

@[simp] theorem established_inputBuffer (c : Connection) (p : EPollPoller ℕ) :
    (established c p).connection.inputBuffer = c.inputBuffer := rfl

@[simp] theorem established_outputBuffer (c : Connection) (p : EPollPoller ℕ) :
    (established c p).connection.outputBuffer = c.outputBuffer := rfl

theorem established_channel_eq (c : Connection) (p : EPollPoller ℕ) :
    (established c p).connection.channel = (c.channel.tie.enableReading epollCtl p).2 := rfl

/-- A freshly established connection reads, does not write and is added. -/
theorem established_channel {c : Connection} (hc : c.Fresh) (p : EPollPoller ℕ) :
    (established c p).connection.channel.events = kReadEvent ∧
      (established c p).connection.channel.status = .kAdded := by
  rw [established_channel_eq, hc.channel]
  constructor
  · exact (BitVec.zero_or : 0#32 ||| kReadEvent = kReadEvent)
  · rfl

end Site

end Netmux.TcpConnection
