import Netmux.TcpConnection

/-!
# The server and its loops

`TcpServer` on its base loop, the thread pool's loops, and the connections they
serve. Each loop is its thread's calls under way, the batch of functors swapped
out, and the functors pending; a thread executes its topmost call to the next
call it makes. `postInLoop` calls on the spot when the executing thread is the
loop's own and queues otherwise.

What a method of a connection does outside itself comes back as effects:
`closeCallback` is the bound `removeConnection`, a functor goes to the loop of
the connection. User code is left out except for what it queues, sends and
leaves in an input buffer. The handlers of an established connection may run
whenever its loop's thread is between two functors, which covers every
dispatch. `removeConnection` is bound as the source has it, to itself.

`ipPort_` is short enough for the 64 bytes that the name is formatted in.
-/
namespace Netmux.TcpServer
open SocketBuffer ChannelPoller TcpConnection

/-- The loop of the server, or one of the thread pool's. -/
inductive LoopId where
  | base
  | io (index : ℕ)
  deriving DecidableEq, Repr

/-- What a loop's thread is asked to call. Connections are known by the order
of their creation; `user` is code of the user's. -/
inductive Call where
  | connectEstablished (conn : ℕ)
  | removeConnection (conn : ℕ)
  | removeConnectionInLoop (conn : ℕ)
  | connectDestroyed (conn : ℕ)
  | sendInLoop (conn : ℕ) (data : Bytes)
  | shutdownInLoop (conn : ℕ)
  | user
  deriving DecidableEq, Repr

structure LoopThread where
  poller : EPollPoller ℕ
  calls : List Call
  batch : List Call
  pendingFunctors : List Call

namespace LoopThread

/-- All that the thread still has to call, in the order it will. -/
def work (l : LoopThread) : List Call := l.calls ++ l.batch ++ l.pendingFunctors

/-- The thread waits or dispatches. -/
def betweenFunctors (l : LoopThread) : Bool := l.calls.isEmpty && l.batch.isEmpty

end LoopThread

structure Peer where
  loop : LoopId
  connection : Connection

/-- The server. `closed`, `erased` and `destroyQueued` record the runs of
`handleClose`, the erased names and the queued calls of `connectDestroyed`. -/
structure Server where
  name : String
  ipPort : String
  nextConnId : ℕ
  threadNum : ℕ
  nextLoop : ℕ
  connections : String → Option ℕ
  conns : List Peer
  threads : LoopId → LoopThread
  closed : List ℕ
  erased : List String
  destroyQueued : List (LoopId × ℕ)

inductive Handler where
  | handleRead (readv : List ℕ → ReadvAnswer)
  | handleWrite (write : Bytes → WriteAnswer)
  | handleClose
  | handleError

inductive Action where
  | newConnection (sockfd address : ℕ)
  | dispatch (conn : ℕ) (handler : Handler)
  | swap (loop : LoopId)
  | next (loop : LoopId)
  | exec (loop : LoopId) (write : Bytes → WriteAnswer)
  | queueUser (loop : LoopId)
  | useInput (conn : ℕ) (left : Buffer)
  | send (conn : ℕ) (inLoopThread : Bool) (buf : Bytes) (write : Bytes → WriteAnswer)
  | shutdown (conn : ℕ) (inLoopThread : Bool)

/-- The calls an effect makes at once. -/
def callsOf (conn : ℕ) : Effect → List Call
  | .closeCallback => [.removeConnection conn]
  | _ => []

/-- The functors an effect queues on the loop of the connection. -/
def functorsOf (conn : ℕ) : Effect → List Call
  | .queueWriteComplete | .queueHighWaterMark _ => [.user]
  | .queueSendInLoop data => [.sendInLoop conn data]
  | .queueShutdownInLoop => [.shutdownInLoop conn]
  | _ => []

namespace Server

/-- A started server with `threadNum` loops in its pool. -/
def start (name ipPort : String) (threadNum : ℕ) : Server where
  name := name
  ipPort := ipPort
  nextConnId := 1
  threadNum := threadNum
  nextLoop := 0
  connections := fun _ => none
  conns := []
  threads := fun _ => ⟨EPollPoller.create, [], [], []⟩
  closed := []
  erased := []
  destroyQueued := []

def setThread (s : Server) (loop : LoopId) (l : LoopThread) : Server :=
  { s with threads := Function.update s.threads loop l }

/-- `EventLoopThreadPool::getNextLoop`. -/
def getNextLoop (s : Server) : LoopId × ℕ :=
  if s.threadNum = 0 then (.base, s.nextLoop) else (.io s.nextLoop, (s.nextLoop + 1) % s.threadNum)

def queueInLoop (s : Server) (loop : LoopId) (functor : Call) : Server :=
  s.setThread loop { s.threads loop with
    pendingFunctors := (s.threads loop).pendingFunctors ++ [functor] }

/-- `loop->postInLoop(functor)` on the thread of `current`. -/
def postInLoop (s : Server) (current loop : LoopId) (functor : Call) : Server :=
  if current = loop then
    s.setThread loop { s.threads loop with calls := functor :: (s.threads loop).calls }
  else s.queueInLoop loop functor

def newConnection (s : Server) (sockfd address : ℕ) : Server :=
  let (ioloop, nextLoop) := s.getNextLoop
  let connName := s.name ++ "-" ++ s.ipPort ++ "#" ++ toString s.nextConnId
  let connection : Connection := { Connection.create connName sockfd address with
    connectionCallback := true
    messageCallback := true
    writeCompleteCallback := true
    closeCallback := true }
  let conn := s.conns.length
  let s : Server := { s with
    nextConnId := s.nextConnId + 1
    nextLoop := nextLoop
    connections := Function.update s.connections connName (some conn)
    conns := s.conns ++ [⟨ioloop, connection⟩] }
  s.postInLoop .base ioloop (.connectEstablished conn)

/-- `removeConnection` posts itself to the base loop. -/
def removeConnection (s : Server) (current : LoopId) (conn : ℕ) : Server :=
  s.postInLoop current .base (.removeConnection conn)

def removeConnectionInLoop (s : Server) (conn : ℕ) (peer : Peer) : Server :=
  let s : Server := { s with
    connections := Function.update s.connections peer.connection.name none
    erased := peer.connection.name :: s.erased
    destroyQueued := (peer.loop, conn) :: s.destroyQueued }
  s.queueInLoop peer.loop (.connectDestroyed conn)

def site (s : Server) (peer : Peer) : Site := ⟨peer.connection, (s.threads peer.loop).poller⟩

/-- Take over what a method of a connection has done. -/
def settle (s : Server) (conn : ℕ) (peer : Peer) (r : Site × List Effect) : Server :=
  let l := s.threads peer.loop
  let s : Server := { s with
    conns := s.conns.set conn { peer with connection := r.1.connection }
    closed := if .closeCallback ∈ r.2 then conn :: s.closed else s.closed }
  s.setThread peer.loop { l with
    poller := r.1.poller
    calls := r.2.flatMap (callsOf conn) ++ l.calls
    pendingFunctors := l.pendingFunctors ++ r.2.flatMap (functorsOf conn) }

/-- The same for a method that touches the connection only. -/
def settleConnection (s : Server) (conn : ℕ) (peer : Peer) (r : Connection × List Effect) :
    Server := s.settle conn peer (⟨r.1, (s.threads peer.loop).poller⟩, r.2)

def handle (s : Server) (conn : ℕ) (peer : Peer) : Handler → Option Server
  | .handleRead readv => ((s.site peer).handleRead readv).toOption.map (s.settle conn peer)
  | .handleWrite write =>
      (peer.connection.handleWrite write).toOption.map (s.settleConnection conn peer)
  | .handleClose => some (s.settle conn peer (s.site peer).handleClose)
  | .handleError => some (s.settle conn peer (s.site peer).handleError)

/-- One call on the thread of `current`. -/
def execute (s : Server) (current : LoopId) (write : Bytes → WriteAnswer) : Call → Option Server
  | .connectEstablished conn =>
      s.conns[conn]?.map fun peer => s.settle conn peer (s.site peer).connectEstablished
  | .removeConnection conn => some (s.removeConnection current conn)
  | .removeConnectionInLoop conn =>
      s.conns[conn]?.map fun peer => s.removeConnectionInLoop conn peer
  | .connectDestroyed conn =>
      s.conns[conn]?.map fun peer => s.settle conn peer (s.site peer).connectDestroyed
  | .sendInLoop conn data =>
      s.conns[conn]?.map fun peer =>
        s.settleConnection conn peer (peer.connection.sendInLoop data write)
  | .shutdownInLoop conn =>
      s.conns[conn]?.map fun peer => s.settleConnection conn peer peer.connection.shutdownInLoop
  | .user => some s

end Server

def step (s : Server) : Action → Option Server
  | .newConnection sockfd address =>
      if (s.threads .base).betweenFunctors then some (s.newConnection sockfd address) else none
  | .dispatch conn handler =>
      s.conns[conn]?.bind fun peer =>
        if peer.connection.state ≠ .kConnecting ∧ (s.threads peer.loop).betweenFunctors then
          s.handle conn peer handler
        else none
  | .swap loop =>
      let l := s.threads loop
      if l.betweenFunctors then
        some (s.setThread loop { l with batch := l.pendingFunctors, pendingFunctors := [] })
      else none
  | .next loop =>
      let l := s.threads loop
      match l.calls, l.batch with
      | [], functor :: batch =>
          some (s.setThread loop { l with calls := [functor], batch := batch })
      | _, _ => none
  | .exec loop write =>
      let l := s.threads loop
      match l.calls with
      | [] => none
      | call :: calls => (s.setThread loop { l with calls := calls }).execute loop write call
  | .queueUser loop => some (s.queueInLoop loop .user)
  | .useInput conn left =>
      s.conns[conn]?.map fun peer => s.settle conn peer ((s.site peer).withInput left, [])
  | .send conn inLoopThread buf write =>
      s.conns[conn]?.map fun peer =>
        s.settleConnection conn peer (peer.connection.send inLoopThread buf write)
  | .shutdown conn inLoopThread =>
      s.conns[conn]?.map fun peer =>
        s.settleConnection conn peer (peer.connection.shutdown inLoopThread)

end Netmux.TcpServer
