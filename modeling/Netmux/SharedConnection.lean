import Netmux.ActionRuns
import Netmux.ConnectionOutput

/-!
# A connection shared with other threads

One connection on its loop's thread, and any number of other threads that hold
a `TcpConnectionPtr` and call `send` and `shutdown` on it. Every load and every
store of `state_`, every push under the loop's lock and every functor that is
run is one step; a list of steps is an interleaving.

Another thread's `send` tests `state_`, binds `this`, `c_str()` and `size()` of
its argument and pushes; its `shutdown` tests, stores and pushes. On the loop's
own thread `postInLoop` calls at once. User code runs there inside a callback,
that is in a dispatch or in a functor. The strings of a thread are cells, by the
address of their characters, that it may overwrite or destroy between its calls; an
append that moves a string destroys the cell it leaves.

The connection lives while a pointer to it exists: in the server's table, with a
thread, in a functor that is bound to one, in the guard of a dispatch. A batch
keeps the functors it has run until it ends. `removing` stands for the pointer
that `removeConnection` passes on to itself for ever once a connection has
closed. The first step of a run is `connectEstablished`, for which `newConnection`
or the functor it queued holds a pointer.

`log` is the history, newest first, that the properties speak about.
-/
namespace Netmux.SharedConnection
open ActionRuns BoundedMemory SocketBuffer ChannelPoller TcpConnection ConnectionOutput

variable {T : Type}

/-- What happens on the connection. A `write` is a call of `::write` for the
send with that number: the argument of `send()`, the bytes read for it, if the
memory still allows it, and the bytes the socket took. -/
inductive Event where
  | stored (state : StateE)
  | executed (alive : Bool)
  | passed
  | write (id : ℕ) (payload : Bytes) (read : Option Bytes) (accepted : Bytes)
  | shutdownWrite (required : ℕ)
  | drained (accepted : Bytes)
  deriving DecidableEq, Repr

/-- A functor of the loop that concerns the connection. The first two are bound
to the raw `this`. Of `sendInLoop` the code binds an address and a length; the
number of the call and what its argument was are history, as is the number of
calls of `send` that had returned when a `shutdown` began. -/
inductive Functor (T : Type) where
  | sendInLoop (id : ℕ) (owner : T) (address len : ℕ) (payload : Bytes)
  | shutdownInLoop (required : ℕ)
  | connectDestroyed
  | callback
  deriving DecidableEq, Repr

namespace Functor

/-- Bound to a `TcpConnectionPtr`. -/
def owns : Functor T → Bool
  | sendInLoop .. | shutdownInLoop _ => false
  | connectDestroyed | callback => true

end Functor

/-- Another thread, between two statements of `send` or `shutdown`. -/
inductive Caller where
  | idle
  | sending (address : ℕ) (payload : Bytes)
  | shutdownTested (required : ℕ)
  | shutdownStored (required : ℕ)
  deriving DecidableEq, Repr

/-- The loop's thread. -/
inductive LoopPc where
  | establishing
  | idle
  | inCallback
  | sendCalled (data : Bytes)
  | shutdownTested (required : ℕ)
  | shutdownStored (required : ℕ)
  | destroyTested
  deriving DecidableEq, Repr

structure Shared (T : Type) where
  site : Site
  pc : LoopPc
  pendingFunctors : List (Functor T)
  callingPendingFunctors : Bool
  batch : List (Functor T)
  executed : List (Functor T)
  threads : T → Caller
  memory : T → ℕ → Option Bytes
  holders : List T
  table : Bool
  removing : Bool
  guard : Bool
  returned : ℕ
  log : List Event

/-- The statements of the other threads, then those of the loop's. -/
inductive Action (T : Type) where
  | send (t : T) (address : ℕ)
  | shutdown (t : T)
  | advance (t : T)
  | assign (t : T) (address : ℕ) (contents : Option Bytes)
  | copy (t : T)
  | drop (t : T)
  | queueCallback (t : T)
  | destroyServer
  | dispatch
  | handleWrite (write : Bytes → WriteAnswer)
  | handleClose
  | leave
  | loopSend (data : Bytes)
  | loopShutdown
  | loopDestroyServer
  | loopAdvance (write : Bytes → WriteAnswer)
  | swap
  | run (write : Bytes → WriteAnswer)
  | endBatch

/-- The functors that `sendInLoop` queues hold the connection. -/
def functorsOf (effects : List Effect) : List (Functor T) :=
  effects.flatMap fun
    | .queueWriteComplete | .queueHighWaterMark _ => [.callback]
    | _ => []

namespace Shared

def state (s : Shared T) : StateE := s.site.connection.state

/-- What the loop is still to run, in order. -/
def work (s : Shared T) : List (Functor T) := s.batch ++ s.pendingFunctors

/-- Some `TcpConnectionPtr` to the connection exists. -/
def alive (s : Shared T) : Bool :=
  s.table || s.removing || s.guard || !s.holders.isEmpty ||
    (s.executed ++ s.work).any Functor.owns

/-- `epoll_wait` can return the channel. -/
def watched (s : Shared T) : Bool :=
  (s.site.poller.interest s.site.connection.channel.fd).any fun e =>
    e.ptr == s.site.connection.channel.address

/-- Before `connectEstablished`; the strings of the threads are given. -/
def create (c : Connection) (p : EPollPoller ℕ) (memory : T → ℕ → Option Bytes) : Shared T where
  site := ⟨c, p⟩
  pc := .establishing
  pendingFunctors := []
  callingPendingFunctors := false
  batch := []
  executed := []
  threads := fun _ => .idle
  memory := memory
  holders := []
  table := true
  removing := false
  guard := true
  returned := 0
  log := [.stored .kConnecting]

def goto (s : Shared T) (pc : LoopPc) : Shared T := { s with pc := pc }

def record (s : Shared T) (e : Event) : Shared T := { s with log := e :: s.log }

/-- `setState(state)`. -/
def store (s : Shared T) (state : StateE) : Shared T :=
  { s with site := s.site.setState state, log := .stored state :: s.log }

def queueInLoop (s : Shared T) (functor : Functor T) : Shared T :=
  { s with pendingFunctors := s.pendingFunctors ++ [functor] }

/-- `sendInLoop(data,len)` for a payload; `read` is what lies at `data`. -/
def sendInLoop (s : Shared T) (id : ℕ) (payload : Bytes) (read : Option Bytes)
    (write : Bytes → WriteAnswer) : Shared T :=
  let c := s.site.connection
  if c.state = .kDisconnected then s
  else
    let s := s.record .passed
    let direct := c.channel.isWriting = false ∧ c.outputBuffer.readableBytes = 0
    match read with
    | some data =>
        let r := c.sendInLoop data write
        let s := { s with
          site := ⟨r.1, s.site.poller⟩
          pendingFunctors := s.pendingFunctors ++ functorsOf r.2 }
        if direct then s.record (.write id payload (some data) (taken r.2)) else s
    | none => if direct then s.record (.write id payload none []) else s

def shutdownInLoop (s : Shared T) (required : ℕ) : Shared T :=
  if s.site.connection.channel.isWriting then s else s.record (.shutdownWrite required)

def connectEstablished (s : Shared T) : Shared T :=
  { s with
    site := s.site.connectEstablished.1
    pc := .inCallback
    log := .stored .kConnected :: s.log }

/-- `handleWrite`; a fault would leave the connection as it is. -/
def handleWrite (s : Shared T) (write : Bytes → WriteAnswer) : Shared T :=
  match s.site.connection.handleWrite write with
  | .ok r =>
      { s with
        site := ⟨r.1, s.site.poller⟩
        log := if r.2 = [] then s.log else .drained (taken r.2) :: s.log }
  | .error _ => s

/-- `handleClose`, whose last callback hands the connection to
`removeConnection`. -/
def handleClose (s : Shared T) : Shared T :=
  { s with
    site := s.site.handleClose.1
    removing := true
    log := .stored .kDisconnected :: s.log }

/-- The test of `connectDestroyed`, and the rest where it fails. -/
def connectDestroyed (s : Shared T) : Shared T :=
  if s.state = .kConnected then s.goto .destroyTested
  else { s with
    site := s.site.onChannel Channel.remove
    pc := if s.guard then .inCallback else .idle }

/-- The rest where it holds. -/
def destroyConnected (s : Shared T) : Shared T :=
  { s with
    site := ((s.site.setState .kDisconnected).onChannel Channel.disableAll).onChannel
      Channel.remove
    pc := .inCallback
    log := .stored .kDisconnected :: s.log }

/-- What lies at an address; nothing to be read once the string is gone from there. -/
def contents (s : Shared T) (owner : T) (address : ℕ) : Bytes :=
  (s.memory owner address).getD []

/-- The bytes at an address bound earlier. -/
def read (s : Shared T) (owner : T) (address len : ℕ) : Option Bytes :=
  load (s.contents owner address) 0 len

/-- The next statement of the loop's thread. -/
def loopAdvance (s : Shared T) (write : Bytes → WriteAnswer) : Shared T :=
  match s.pc with
  | .establishing => s.connectEstablished
  | .idle | .inCallback => s
  | .sendCalled data =>
      let s := s.sendInLoop s.returned data (some data) write
      { s with pc := .inCallback, returned := s.returned + 1 }
  | .shutdownTested required => (s.store .kDisconnecting).goto (.shutdownStored required)
  | .shutdownStored required => (s.shutdownInLoop required).goto .inCallback
  | .destroyTested => s.destroyConnected

/-- Run one functor. A raw one whose connection is gone runs on freed memory;
nothing is said about what it does there. -/
def runFunctor (s : Shared T) (write : Bytes → WriteAnswer) : Functor T → Shared T
  | .sendInLoop id owner address len payload =>
      let t := s.record (.executed s.alive)
      if s.alive then t.sendInLoop id payload (s.read owner address len) write else t
  | .shutdownInLoop required =>
      let t := s.record (.executed s.alive)
      if s.alive then t.shutdownInLoop required else t
  | .connectDestroyed => s.connectDestroyed
  | .callback => s.goto .inCallback

/-- The batch moves on past a functor. -/
def pop (s : Shared T) (functor : Functor T) (batch : List (Functor T)) : Shared T :=
  { s with batch := batch, executed := s.executed ++ [functor] }

/-- Run the first functor of the batch. -/
def runNext (s : Shared T) (write : Bytes → WriteAnswer) : Shared T :=
  match s.batch with
  | [] => s
  | functor :: batch => (s.pop functor batch).runFunctor write functor

variable [DecidableEq T]

def setCaller (s : Shared T) (t : T) (caller : Caller) : Shared T :=
  { s with threads := Function.update s.threads t caller }

/-- The test of `send`, on the argument at an address. -/
def testSend (s : Shared T) (t : T) (address : ℕ) : Shared T :=
  match s.memory t address with
  | some payload =>
      if s.state = .kConnected then s.setCaller t (.sending address payload) else s
  | none => s

/-- The next statement of another thread. -/
def advance (s : Shared T) (t : T) : Shared T :=
  match s.threads t with
  | .idle => s
  | .sending address payload =>
      let len := (s.contents t address).length
      { (s.queueInLoop (.sendInLoop s.returned t address len payload)).setCaller t .idle with
        returned := s.returned + 1 }
  | .shutdownTested required =>
      (s.store .kDisconnecting).setCaller t (.shutdownStored required)
  | .shutdownStored required => (s.queueInLoop (.shutdownInLoop required)).setCaller t .idle

def assign (s : Shared T) (t : T) (address : ℕ) (contents : Option Bytes) : Shared T :=
  { s with memory := Function.update s.memory t (Function.update (s.memory t) address contents) }

end Shared

/-- A fresh connection, and a string of one byte at every address. -/
def justMade (T : Type) : Shared T :=
  Shared.create (Connection.create "c" 3 0) EPollPoller.create fun _ _ => some [7]

/-- The steps possible in a state. A thread uses the connection only through a
pointer it holds; `tie_.lock()` succeeds only while there is one. -/
def Enabled [DecidableEq T] (s : Shared T) : Action T → Prop
  | .send t address =>
      s.threads t = .idle ∧ t ∈ s.holders ∧ (s.memory t address).isSome = true
  | .shutdown t | .queueCallback t | .drop t => s.threads t = .idle ∧ t ∈ s.holders
  | .advance t => s.threads t ≠ .idle
  | .assign t _ _ => s.threads t = .idle
  | .copy _ => s.pc ≠ .establishing ∧ s.alive = true
  | .destroyServer => s.table = true
  | .dispatch =>
      s.pc = .idle ∧ s.callingPendingFunctors = false ∧ s.watched = true ∧ s.alive = true
  | .handleWrite _ | .handleClose => s.pc = .inCallback ∧ s.guard = true
  | .leave | .loopSend _ | .loopShutdown => s.pc = .inCallback
  | .loopDestroyServer => s.table = true ∧ (s.pc = .idle ∨ s.pc = .inCallback)
  | .loopAdvance _ => s.pc ≠ .idle ∧ s.pc ≠ .inCallback
  | .swap => s.pc = .idle ∧ s.callingPendingFunctors = false
  | .run _ => s.pc = .idle ∧ s.callingPendingFunctors = true ∧ s.batch ≠ []
  | .endBatch => s.pc = .idle ∧ s.callingPendingFunctors = true ∧ s.batch = []

instance [DecidableEq T] (s : Shared T) : (a : Action T) → Decidable (Enabled s a)
  | .send _ _ => inferInstanceAs (Decidable (_ ∧ _ ∧ _))
  | .shutdown _ | .queueCallback _ | .drop _ => inferInstanceAs (Decidable (_ ∧ _))
  | .advance _ => inferInstanceAs (Decidable (_ ≠ _))
  | .assign _ _ _ => inferInstanceAs (Decidable (_ = _))
  | .copy _ => inferInstanceAs (Decidable (_ ∧ _))
  | .destroyServer => inferInstanceAs (Decidable (_ = _))
  | .dispatch => inferInstanceAs (Decidable (_ ∧ _ ∧ _ ∧ _))
  | .handleWrite _ | .handleClose => inferInstanceAs (Decidable (_ ∧ _))
  | .leave | .loopSend _ | .loopShutdown => inferInstanceAs (Decidable (_ = _))
  | .loopDestroyServer => inferInstanceAs (Decidable (_ ∧ (_ ∨ _)))
  | .loopAdvance _ => inferInstanceAs (Decidable (_ ∧ _))
  | .swap => inferInstanceAs (Decidable (_ ∧ _))
  | .run _ | .endBatch => inferInstanceAs (Decidable (_ ∧ _ ∧ _))

def after [DecidableEq T] (s : Shared T) : Action T → Shared T
  | .send t address => s.testSend t address
  | .shutdown t =>
      if s.state = .kConnected then s.setCaller t (.shutdownTested s.returned) else s
  | .advance t => s.advance t
  | .assign t address contents => s.assign t address contents
  | .copy t => { s with holders := t :: s.holders }
  | .drop t => { s with holders := s.holders.erase t }
  | .queueCallback _ => s.queueInLoop .callback
  | .destroyServer => { s.queueInLoop .connectDestroyed with table := false }
  | .dispatch => { s with guard := true, pc := .inCallback }
  | .handleWrite write => s.handleWrite write
  | .handleClose => s.handleClose
  | .leave => { s with guard := false, pc := .idle }
  | .loopSend data => if s.state = .kConnected then s.goto (.sendCalled data) else s
  | .loopShutdown => if s.state = .kConnected then s.goto (.shutdownTested s.returned) else s
  | .loopDestroyServer => ({ s with table := false, guard := true }).connectDestroyed
  | .loopAdvance write => s.loopAdvance write
  | .swap =>
      { s with batch := s.pendingFunctors, pendingFunctors := [], callingPendingFunctors := true }
  | .run write => s.runNext write
  | .endBatch => { s with executed := [], callingPendingFunctors := false }

def step [DecidableEq T] (s : Shared T) (a : Action T) : Option (Shared T) :=
  if Enabled s a then some (after s a) else none

@[simp] theorem setCaller_self [DecidableEq T] (s : Shared T) (t : T) (caller : Caller) :
    (s.setCaller t caller).threads t = caller := Function.update_self ..

theorem setCaller_of_ne [DecidableEq T] (s : Shared T) {t u : T} (caller : Caller) (h : u ≠ t) :
    (s.setCaller t caller).threads u = s.threads u := Function.update_of_ne h ..

theorem step_eq_some [DecidableEq T] {s t : Shared T} {a : Action T} :
    step s a = some t ↔ Enabled s a ∧ after s a = t := by
  simp only [step, Option.ite_none_right_eq_some, Option.some.injEq]

end Netmux.SharedConnection
