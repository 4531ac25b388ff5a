import Netmux.TcpServer

/-!
# The server among threads

`TcpServer` with its acceptor, its pool and its connections, and which thread
does what. A loop is run by the thread that constructed it; any number of other
threads belong to the user. Each thread has the calls it has still to make, and
makes the first of them in a step; what a method calls on the spot goes in front.
`postInLoop` calls on the spot when the executing thread is the loop's own and
queues otherwise.

A loop iterates: it polls and handles the events that its poller reported, each
by any sequence of handlers, and then swaps out its functors and runs them. User
code runs inside a callback, on the base loop's thread around `loop()`, and on
the user's own threads. There it may send, shut down, start and destroy the
server, and set callbacks.

`newConnection` takes two steps, for other threads may come in between: it puts
the connection into the table, and posts the establishment. The destructor is one
step, and so are the two accesses of `state_` in `shutdown`. Connections are kept
for ever. An invocation of a `std::function` is a call like others, which says
whether the function holds a target. The four callbacks of a connection's channel,
the acceptor's two and the thread function are set by constructors and count as
plain calls.

`started_` is an atomic `int` and wraps around: after 2^32 starts the next one
starts the pool again, which grows. `nextConnId_` is a plain `int`: a server that
accepts 2^31 - 1 connections is not described. A character of a string is a `char`.
-/
namespace Netmux.ServerThreads
open SocketBuffer ChannelPoller TcpConnection
open TcpServer (LoopId)

inductive ThreadId where
  | loop (loop : LoopId)
  | user (number : ℕ)
  deriving DecidableEq, Repr

inductive Callback where
  | threadInit | connection | message | writeComplete | highWaterMark
  deriving DecidableEq, Repr

/-- What a thread is to call, on the spot or as a functor. `postEstablished` is
what `newConnection` does last, and `userCode` stays in front while code of the
user's runs. -/
inductive Call where
  | listen
  | newConnection (sockfd : ℕ)
  | postEstablished (conn : ℕ)
  | removeConnection (conn : ℕ)
  | removeConnectionInLoop (conn : ℕ)
  | connectEstablished (conn : ℕ)
  | connectDestroyed (conn : ℕ)
  | sendInLoop (conn : ℕ) (data : Bytes)
  | shutdownInLoop (conn : ℕ)
  | handleRead (conn : ℕ)
  | handleWrite (conn : ℕ)
  | handleClose (conn : ℕ)
  | handleError (conn : ℕ)
  | callback (callback : Callback) (held : Bool)
  | closeCallback (conn : ℕ) (held : Bool)
  | userCode
  deriving DecidableEq, Repr

/-- A loop: its poller, whether that watches the acceptor's channel, the functors
swapped out and the functors pending. -/
structure LoopState where
  poller : EPollPoller ℕ
  accepts : Bool
  batch : List Call
  pendingFunctors : List Call

/-- A connection with its loop and its channel's. `userClose` says that the user
has replaced the server's close callback. -/
structure Conn where
  loop : LoopId
  channelLoop : LoopId
  userClose : Bool
  connection : Connection

/-- The server. `callbacks` says which of its own hold a target; `removed` are
the connections passed to `removeConnectionInLoop` and `log` the calls made,
newest first. -/
structure Server where
  name : String
  ipPort : String
  threadNum : ℕ
  started : BitVec 32
  pool : ℕ
  next : ℕ
  nextConnId : ℕ
  connections : String → Option ℕ
  conns : List Conn
  loops : LoopId → LoopState
  calls : ThreadId → List Call
  callbacks : Callback → Bool
  destroyed : Bool
  removed : List ℕ
  log : List (ThreadId × Call)

/-- What the kernel answers to the calls made. -/
structure Kernel where
  write : Bytes → WriteAnswer
  readv : List ℕ → ReadvAnswer

/-- Sockets take and give nothing at present. -/
def Kernel.blocked : Kernel := ⟨fun _ => .failed .EWOULDBLOCK, fun _ => .failed .EWOULDBLOCK⟩

inductive Handler where
  | read | write | close | error
  deriving DecidableEq, Repr

/-- An event of a poll: on the acceptor's channel, with the socket it accepts, or
on a connection's, with the handlers that `handleEventWithGuard` calls. -/
inductive Event where
  | accept (sockfd : ℕ)
  | channel (conn : ℕ) (handlers : List Handler)
  deriving DecidableEq, Repr

inductive Action where
  | poll (loop : LoopId) (events : List Event)
  | swap (loop : LoopId)
  | next (loop : LoopId)
  | exec (t : ThreadId) (kernel : Kernel)
  | leave (t : ThreadId)
  | send (t : ThreadId) (conn : ℕ) (buf : Bytes)
  | shutdown (t : ThreadId) (conn : ℕ)
  | start (t : ThreadId)
  | destroy (t : ThreadId)
  | useInput (conn : ℕ) (left : Buffer)
  | setCallback (callback : Callback)
  | setConnectionCallback (conn : ℕ)
  | setMessageCallback (conn : ℕ)
  | setWriteCompleteCallback (conn : ℕ)
  | setHighWaterMarkCallback (conn : ℕ) (highWaterMark : ℕ)
  | setCloseCallback (conn : ℕ)

def Handler.call (conn : ℕ) : Handler → Call
  | .read => .handleRead conn
  | .write => .handleWrite conn
  | .close => .handleClose conn
  | .error => .handleError conn

/-- `Acceptor::handleRead` accepts and calls the server's `newConnection`. -/
def Event.calls : Event → List Call
  | .accept sockfd => [.newConnection sockfd]
  | .channel conn handlers => handlers.map (Handler.call conn)

/-- The calls an effect of a connection makes at once. -/
def callsOf (conn : ℕ) (c : Connection) : Effect → List Call
  | .connectionCallback _ => [.callback .connection c.connectionCallback]
  | .messageCallback => [.callback .message c.messageCallback]
  | .closeCallback => [.closeCallback conn c.closeCallback]
  | .queueWriteComplete | .queueHighWaterMark _ | .queueSendInLoop _ | .queueShutdownInLoop
  | .accepted _ | .shutdownWrite => []

/-- The functors it queues on the loop of the connection. -/
def functorsOf (c : Connection) : Effect → List Call
  | .queueWriteComplete => [.callback .writeComplete c.writeCompleteCallback]
  | .queueHighWaterMark _ => [.callback .highWaterMark c.highWaterMarkCallback]
  | .connectionCallback _ | .messageCallback | .closeCallback | .queueSendInLoop _
  | .queueShutdownInLoop | .accepted _ | .shutdownWrite => []

/-- `snprintf` into 64 bytes: what fits before the terminating NUL. -/
def snprintf (text : String) : String := String.ofList (text.toList.take 63)

def c_str (s : String) : String := String.ofList (s.toList.takeWhile (· ≠ '\x00'))

namespace Server

/-- Constructed, with the number of threads and some callbacks set. -/
def create (name ipPort : String) (threadNum : ℕ) (callbacks : Callback → Bool) : Server where
  name := name
  ipPort := ipPort
  threadNum := threadNum
  started := 0
  pool := 0
  next := 0
  nextConnId := 1
  connections := fun _ => none
  conns := []
  loops := fun _ => ⟨EPollPoller.create, false, [], []⟩
  calls := fun _ => []
  callbacks := callbacks
  destroyed := false
  removed := []
  log := []

def setLoop (s : Server) (loop : LoopId) (l : LoopState) : Server :=
  { s with loops := Function.update s.loops loop l }

/-- The acceptor's channel belongs to the base loop. -/
def setAccepts (s : Server) (accepts : Bool) : Server :=
  s.setLoop .base { s.loops .base with accepts := accepts }

def setCalls (s : Server) (t : ThreadId) (calls : List Call) : Server :=
  { s with calls := Function.update s.calls t calls }

/-- Calls on the spot, in front of what the thread has still to do. -/
def call (s : Server) (t : ThreadId) (calls : List Call) : Server :=
  s.setCalls t (calls ++ s.calls t)

/-- The thread goes on past its first call. -/
def made (s : Server) (t : ThreadId) (call : Call) (calls : List Call) : Server :=
  { s.setCalls t calls with log := (t, call) :: s.log }

def queueInLoop (s : Server) (loop : LoopId) (functors : List Call) : Server :=
  s.setLoop loop { s.loops loop with
    pendingFunctors := (s.loops loop).pendingFunctors ++ functors }

/-- `isInLoopThread` compares the executing thread with the loop's. -/
def postInLoop (s : Server) (t : ThreadId) (loop : LoopId) (functor : Call) : Server :=
  if t = .loop loop then s.call t [functor] else s.queueInLoop loop [functor]

/-- The thread that owns the loop of a connection. -/
def owner (s : Server) (conn : ℕ) : Option ThreadId := s.conns[conn]?.map fun c => .loop c.loop

def getNextLoop (s : Server) : LoopId × ℕ :=
  if s.pool = 0 then (.base, s.next) else (.io s.next, (s.next + 1) % s.pool)

def connName (s : Server) : String :=
  s.name ++ snprintf ("-" ++ c_str s.ipPort ++ "#" ++ toString s.nextConnId)

/-- The connection that `newConnection` makes, with the server's callbacks. -/
def accepted (s : Server) (sockfd : ℕ) : Conn :=
  let ioloop := s.getNextLoop.1
  let connection := Connection.create s.connName sockfd s.conns.length
  ⟨ioloop, ioloop, false, { connection with
    connectionCallback := s.callbacks .connection
    messageCallback := s.callbacks .message
    writeCompleteCallback := s.callbacks .writeComplete
    closeCallback := true }⟩

/-- The new connection in the table, before its establishment is posted. -/
def addConnection (s : Server) (sockfd : ℕ) : Server :=
  { s with
    nextConnId := s.nextConnId + 1
    next := s.getNextLoop.2
    connections := Function.update s.connections s.connName (some s.conns.length)
    conns := s.conns ++ [s.accepted sockfd] }

def newConnection (s : Server) (t : ThreadId) (sockfd : ℕ) : Server :=
  (s.addConnection sockfd).call t [.postEstablished s.conns.length]

/-- `ioloop->postInLoop` at the end of `newConnection`. -/
def postEstablished (s : Server) (t : ThreadId) (conn : ℕ) (c : Conn) : Server :=
  s.postInLoop t c.loop (.connectEstablished conn)

/-- `removeConnection` posts itself to the base loop. -/
def removeConnection (s : Server) (t : ThreadId) (conn : ℕ) : Server :=
  s.postInLoop t .base (.removeConnection conn)

/-- `connections_.erase(connPtr->name())`. -/
def eraseConnection (s : Server) (conn : ℕ) (c : Conn) : Server :=
  { s with
    connections := Function.update s.connections c.connection.name none
    removed := conn :: s.removed }

def removeConnectionInLoop (s : Server) (conn : ℕ) (c : Conn) : Server :=
  (s.eraseConnection conn c).queueInLoop c.loop [.connectDestroyed conn]

def site (s : Server) (c : Conn) : Site := ⟨c.connection, (s.loops c.channelLoop).poller⟩

/-- Take over what a method of a connection has done on a thread. -/
def settle (s : Server) (t : ThreadId) (conn : ℕ) (c : Conn) (r : Site × List Effect) : Server :=
  let s : Server := { s with conns := s.conns.set conn { c with connection := r.1.connection } }
  let s := s.setLoop c.channelLoop { s.loops c.channelLoop with poller := r.1.poller }
  let s := s.queueInLoop c.loop (r.2.flatMap (functorsOf c.connection))
  s.call t (r.2.flatMap (callsOf conn c.connection))

/-- The same for a method that touches the connection only. -/
def settleConnection (s : Server) (t : ThreadId) (conn : ℕ) (c : Conn)
    (r : Connection × List Effect) : Server :=
  s.settle t conn c (⟨r.1, (s.loops c.channelLoop).poller⟩, r.2)

def setConnection (s : Server) (conn : ℕ) (c : Conn) (connection : Connection) : Server :=
  { s with conns := s.conns.set conn { c with connection := connection } }

/-- `TcpConnection::handleRead`, whose branches are calls on the spot; a fault of
the buffer would leave everything as it is. -/
def handleRead (s : Server) (t : ThreadId) (conn : ℕ) (c : Conn)
    (readv : List ℕ → ReadvAnswer) : Server :=
  match c.connection.inputBuffer.readFd readv with
  | .ok (buffer, n) =>
      let s := s.setConnection conn c { c.connection with inputBuffer := buffer }
      match n with
      | .count 0 => s.call t [.handleClose conn]
      | .count (_ + 1) => s.call t [.callback .message c.connection.messageCallback]
      | .failed _ => s.call t [.handleError conn]
  | .error _ => s

def handleWrite (s : Server) (t : ThreadId) (conn : ℕ) (c : Conn)
    (write : Bytes → WriteAnswer) : Server :=
  match c.connection.handleWrite write with
  | .ok r => s.settleConnection t conn c r
  | .error _ => s

/-- Do something with a connection that has been created. -/
def withConn (s : Server) (conn : ℕ) (f : Conn → Server) : Server :=
  match s.conns[conn]? with
  | some c => f c
  | none => s

/-- One call on a thread. Nothing is said about what an empty function does. -/
def execute (s : Server) (t : ThreadId) (kernel : Kernel) : Call → Server
  | .listen => s.setAccepts true
  | .newConnection sockfd => s.newConnection t sockfd
  | .postEstablished conn => s.withConn conn (s.postEstablished t conn)
  | .removeConnection conn => s.removeConnection t conn
  | .removeConnectionInLoop conn => s.withConn conn (s.removeConnectionInLoop conn)
  | .connectEstablished conn =>
      s.withConn conn fun c => s.settle t conn c (s.site c).connectEstablished
  | .connectDestroyed conn =>
      s.withConn conn fun c => s.settle t conn c (s.site c).connectDestroyed
  | .sendInLoop conn data => s.withConn conn fun c =>
      s.settleConnection t conn c (c.connection.sendInLoop data kernel.write)
  | .shutdownInLoop conn =>
      s.withConn conn fun c => s.settleConnection t conn c c.connection.shutdownInLoop
  | .handleRead conn => s.withConn conn fun c => s.handleRead t conn c kernel.readv
  | .handleWrite conn => s.withConn conn fun c => s.handleWrite t conn c kernel.write
  | .handleClose conn => s.withConn conn fun c => s.settle t conn c (s.site c).handleClose
  | .handleError conn => s.withConn conn fun c => s.settle t conn c (s.site c).handleError
  | .callback _ held => if held then s.call t [.userCode] else s
  | .closeCallback conn held => s.withConn conn fun c =>
      if held then s.call t [if c.userClose then .userCode else .removeConnection conn] else s
  | .userCode => s

/-- The thread-init callback of the threads that the pool starts, from the given
number on, or of the caller's without any. -/
def initThreads (s : Server) (t : ThreadId) (first : ℕ) : Server :=
  let init : Call := .callback .threadInit (s.callbacks .threadInit)
  if s.callbacks .threadInit then
    if s.threadNum = 0 then s.call t [init]
    else (List.range' first s.threadNum).foldl (fun s i => s.call (.loop (.io i)) [init]) s
  else s

def start (s : Server) (t : ThreadId) : Server :=
  if s.started = 0 then
    let u : Server := { s with started := s.started + 1, pool := s.pool + s.threadNum }
    (u.postInLoop t .base .listen).initThreads t s.pool
  else { s with started := s.started + 1 }

/-- The connections in the table. -/
def tabled (s : Server) : List ℕ :=
  (List.range s.conns.length).filter fun conn =>
    s.conns[conn]?.any fun c => s.connections c.connection.name == some conn

def postDestroyed (s : Server) (t : ThreadId) (conns : List ℕ) : Server :=
  conns.foldl (fun s conn => s.withConn conn fun c =>
    s.postInLoop t c.loop (.connectDestroyed conn)) s

/-- `~TcpServer` and the destructor of its acceptor. -/
def destroy (s : Server) (t : ThreadId) : Server :=
  let s := (s.postDestroyed t s.tabled).setAccepts false
  { s with connections := fun _ => none, destroyed := true }

def send (s : Server) (t : ThreadId) (conn : ℕ) (buf : Bytes) : Server :=
  s.withConn conn fun c =>
    if c.connection.state = .kConnected then s.postInLoop t c.loop (.sendInLoop conn buf) else s

def shutdown (s : Server) (t : ThreadId) (conn : ℕ) : Server :=
  s.withConn conn fun c =>
    if c.connection.state = .kConnected then
      (s.setConnection conn c (c.connection.setState .kDisconnecting)).postInLoop t c.loop
        (.shutdownInLoop conn)
    else s

/-- The poller of the loop watches the channel of the event. -/
def watches (s : Server) (loop : LoopId) : Event → Bool
  | .accept _ => (s.loops loop).accepts
  | .channel conn _ => s.conns[conn]?.any fun c =>
      ((s.loops loop).poller.interest c.connection.channel.fd).any fun e =>
        e.ptr == c.connection.channel.address

/-- The thread of the loop has finished its last iteration. -/
def idle (s : Server) (loop : LoopId) : Bool :=
  (s.calls (.loop loop)).isEmpty && (s.loops loop).batch.isEmpty

def inUserCode (s : Server) (t : ThreadId) : Bool :=
  match s.calls t with
  | [] | .userCode :: _ => true
  | _ => false

end Server

def step (s : Server) : Action → Option Server
  | .poll loop events =>
      if s.idle loop ∧ events.all (s.watches loop) then
        some (s.call (.loop loop) (events.flatMap Event.calls))
      else none
  | .swap loop =>
      let l := s.loops loop
      if s.idle loop then
        some (s.setLoop loop { l with batch := l.pendingFunctors, pendingFunctors := [] })
      else none
  | .next loop =>
      let l := s.loops loop
      match s.calls (.loop loop), l.batch with
      | [], functor :: batch =>
          some ((s.setLoop loop { l with batch := batch }).call (.loop loop) [functor])
      | _, _ => none
  | .exec t kernel =>
      match s.calls t with
      | [] | .userCode :: _ => none
      | call :: calls => some ((s.made t call calls).execute t kernel call)
  | .leave t =>
      match s.calls t with
      | .userCode :: calls => some (s.setCalls t calls)
      | _ => none
  | .send t conn buf => if s.inUserCode t then some (s.send t conn buf) else none
  | .shutdown t conn => if s.inUserCode t then some (s.shutdown t conn) else none
  | .start t => if s.inUserCode t then some (s.start t) else none
  | .destroy t => if s.inUserCode t then some (s.destroy t) else none
  | .useInput conn left => some (s.withConn conn fun c =>
      s.setConnection conn c { c.connection with inputBuffer := left })
  | .setCallback callback => some { s with callbacks := Function.update s.callbacks callback true }
  | .setConnectionCallback conn => some (s.withConn conn fun c =>
      s.setConnection conn c { c.connection with connectionCallback := true })
  | .setMessageCallback conn => some (s.withConn conn fun c =>
      s.setConnection conn c { c.connection with messageCallback := true })
  | .setWriteCompleteCallback conn => some (s.withConn conn fun c =>
      s.setConnection conn c { c.connection with writeCompleteCallback := true })
  | .setHighWaterMarkCallback conn highWaterMark => some (s.withConn conn fun c =>
      s.setConnection conn c { c.connection with
        highWaterMarkCallback := true
        highWaterMark := highWaterMark })
  | .setCloseCallback conn => some (s.withConn conn fun c =>
      { s with conns := s.conns.set conn { c with
          userClose := true
          connection := { c.connection with closeCallback := true } } })

end Netmux.ServerThreads
