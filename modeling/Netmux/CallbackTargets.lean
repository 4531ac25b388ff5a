import Netmux.ActionRuns
import Netmux.ServerSteps

/-!
# No empty callback is called

The user sets the connection and the message callback; `newConnection` copies
them to every connection and sets the close callback, and none is ever taken
away. `writeCompleteCallback_` and the thread-init callback are tested before
they are called or bound.

`sendInLoop` binds `highWaterMarkCallback_` when a remainder crosses the mark,
and tests the mark instead of the callback. The mark is 64 MiB from the start,
the callback empty until a user sets both, so a large remainder on a connection
without one queues an empty function that the loop then calls.
-/
namespace Netmux.CallbackTargets
open ActionRuns BoundedMemory SocketBuffer TcpConnection ServerThreads
open TcpServer (LoopId)

/-- Not a call of an empty function. -/
def Held : Call → Prop
  | .callback _ held | .closeCallback _ held => held = true
  | .listen | .newConnection _ | .postEstablished _ | .removeConnection _
  | .removeConnectionInLoop _ | .connectEstablished _ | .connectDestroyed _ | .sendInLoop _ _
  | .shutdownInLoop _ | .handleRead _ | .handleWrite _ | .handleClose _ | .handleError _
  | .userCode => True

/-- No empty function has been called. -/
def NoneEmpty (s : Server) : Prop := ∀ e ∈ s.log, Held e.2

/-- What a `sendInLoop` of an open connection leaves unsent, unless the socket
is broken, by the kernel's answer to its `::write`. -/
def unsent (c : Connection) (data : Bytes) (write : Bytes → WriteAnswer) : ℕ :=
  if c.channel.isWriting = false ∧ c.outputBuffer.readableBytes = 0 then
    match write data with
    | .accepted nwrote => subSize data.length nwrote
    | .failed errno => if errno = .EPIPE ∨ errno = .ECONNRESET then 0 else data.length
  else data.length

/-- A remainder takes the output buffer over the mark. -/
def Crosses (c : Connection) (remaining : ℕ) : Prop :=
  let oldLen := c.outputBuffer.readableBytes
  0 < remaining ∧ c.highWaterMark ≤ addSize oldLen remaining ∧ oldLen < c.highWaterMark ∧
    c.highWaterMark ≠ 0

instance (c : Connection) (remaining : ℕ) : Decidable (Crosses c remaining) :=
  inferInstanceAs (Decidable (_ ∧ _ ∧ _ ∧ _))

/-- A remainder that crosses the mark finds the high-water callback set. -/
def Announceable (c : Connection) (data : Bytes) (write : Bytes → WriteAnswer) : Prop :=
  c.state ≠ .kDisconnected → Crosses c (unsent c data write) → c.highWaterMarkCallback = true

instance (c : Connection) (data : Bytes) (write : Bytes → WriteAnswer) :
    Decidable (Announceable c data write) := inferInstanceAs (Decidable (_ → _ → _))

def AnnounceableCall (s : Server) (kernel : Kernel) : Call → Prop
  | .sendInLoop conn data => ∀ c ∈ s.conns[conn]?, Announceable c.connection data kernel.write
  | .listen | .newConnection _ | .postEstablished _ | .removeConnection _
  | .removeConnectionInLoop _ | .connectEstablished _ | .connectDestroyed _ | .shutdownInLoop _
  | .handleRead _ | .handleWrite _ | .handleClose _ | .handleError _ | .callback _ _
  | .closeCallback _ _ | .userCode => True

instance (s : Server) (kernel : Kernel) : (call : Call) → Decidable (AnnounceableCall s kernel call)
  | .sendInLoop conn _ => inferInstanceAs (Decidable (∀ c ∈ s.conns[conn]?, _))
  | .listen | .newConnection _ | .postEstablished _ | .removeConnection _
  | .removeConnectionInLoop _ | .connectEstablished _ | .connectDestroyed _ | .shutdownInLoop _
  | .handleRead _ | .handleWrite _ | .handleClose _ | .handleError _ | .callback _ _
  | .closeCallback _ _ | .userCode => isTrue trivial

/-- Every `sendInLoop` that is run leaves the mark uncrossed or finds the
high-water callback set. -/
def Guarded (s : Server) : Action → Prop
  | .exec t kernel => ∀ call ∈ (s.calls t).head?, AnnounceableCall s kernel call
  | _ => True

instance (s : Server) : (a : Action) → Decidable (Guarded s a)
  | .exec t _ => inferInstanceAs (Decidable (∀ call ∈ (s.calls t).head?, _))
  | .poll _ _ | .swap _ | .next _ | .leave _ | .send _ _ _ | .shutdown _ _ | .start _ | .destroy _
  | .useInput _ _ | .setCallback _ | .setConnectionCallback _ | .setMessageCallback _
  | .setWriteCompleteCallback _ | .setHighWaterMarkCallback _ _ | .setCloseCallback _ =>
      isTrue trivial

/-- The three callbacks of a connection that are called untested. -/
structure Equipped (c : Connection) : Prop where
  connectionCallback : c.connectionCallback = true
  messageCallback : c.messageCallback = true
  closeCallback : c.closeCallback = true

/-- What the user and the constructors have set stays set. -/
structure Outfitted (s : Server) : Prop where
  conns : ∀ (conn : ℕ) (c : Conn), s.conns[conn]? = some c → Equipped c.connection
  server : s.callbacks .connection = true ∧ s.callbacks .message = true

/-- Calls made and calls to be made have targets, and so will those to come. -/
structure Targeted (s : Server) : Prop where
  noneEmpty : NoneEmpty s
  pending : ∀ t call, s.Pending t call → Held call
  outfitted : Outfitted s

theorem mem_checkHighWaterMark {c : Connection} {remaining size : ℕ} :
    .queueHighWaterMark size ∈ c.checkHighWaterMark remaining ↔
      Crosses c remaining ∧ size = addSize c.outputBuffer.readableBytes remaining := by
  unfold Connection.checkHighWaterMark Crosses
  dsimp only
  split_ifs with hcross
  · simp [hcross]
  · simp [hcross]

theorem queueWriteComplete_not_mem (c : Connection) (remaining : ℕ) :
    .queueWriteComplete ∉ c.checkHighWaterMark remaining := by
  unfold Connection.checkHighWaterMark
  dsimp only
  split_ifs
  · simp
  · simp

/-- When `sendInLoop` queues the high-water callback. -/
theorem sendInLoop_highWaterMark (c : Connection) (data : Bytes) (write : Bytes → WriteAnswer) :
    (∃ size, .queueHighWaterMark size ∈ (c.sendInLoop data write).2) ↔
      c.state ≠ .kDisconnected ∧ Crosses c (unsent c data write) := by
  unfold Connection.sendInLoop unsent
  dsimp only
  by_cases hstate : c.state = .kDisconnected
  · simp [hstate]
  · rw [if_neg hstate]
    by_cases hdirect : c.channel.isWriting = false ∧ c.outputBuffer.readableBytes = 0
    · rw [if_pos hdirect, if_pos hdirect]
      cases write data with
      | accepted nwrote =>
          have hnone : ∀ size, Effect.queueHighWaterMark size ∉
              (if subSize data.length nwrote = 0 ∧ c.writeCompleteCallback = true then
                [Effect.queueWriteComplete] else []) := by
            intro size
            split_ifs <;> simp
          simp [hnone, mem_checkHighWaterMark, hstate]
      | failed errno =>
          dsimp only
          by_cases hfault : errno = .EPIPE ∨ errno = .ECONNRESET
          · simp [hfault, Crosses]
          · simp [hfault, mem_checkHighWaterMark, hstate]
    · rw [if_neg hdirect, if_neg hdirect]
      simp [mem_checkHighWaterMark, hstate]

theorem sendInLoop_writeComplete {c : Connection} {data : Bytes} {write : Bytes → WriteAnswer}
    (h : .queueWriteComplete ∈ (c.sendInLoop data write).2) : c.writeCompleteCallback = true := by
  unfold Connection.sendInLoop at h
  dsimp only at h
  split_ifs at h with hstate hdirect
  · cases h
  · cases hw : write data with
    | accepted nwrote =>
        rw [hw] at h
        simp only [List.mem_cons, reduceCtorEq, List.mem_append, false_or,
          queueWriteComplete_not_mem, or_false] at h
        split_ifs at h with hcomplete
        · exact hcomplete.2
        · cases h
    | failed errno =>
        rw [hw] at h
        dsimp only at h
        split_ifs at h
        · cases h
        · exact absurd h (queueWriteComplete_not_mem c _)
  · exact absurd h (queueWriteComplete_not_mem c _)

theorem handleWrite_effects {c : Connection} {write : Bytes → WriteAnswer}
    {r : Connection × List Effect} (h : c.handleWrite write = .ok r) {effect : Effect}
    (he : effect ∈ r.2) : ∃ taken, effect = .accepted taken := by
  unfold Connection.handleWrite at h
  split_ifs at h
  · cases hw : c.outputBuffer.writeFd write with
    | error fault =>
        rw [hw] at h
        cases h
    | ok q =>
        rw [hw] at h
        cases h
        exact ⟨q.2, List.mem_singleton.mp he⟩
  · cases h
    cases he

/-- Only `sendInLoop` queues callbacks. -/
theorem sendInLoop_of_functorsOf {s : Server} {kernel : Kernel} {c : Conn} {head call : Call}
    {effect : Effect} (he : effect ∈ effectsOf s kernel c head)
    (hcall : call ∈ functorsOf c.connection effect) :
    ∃ conn data, head = .sendInLoop conn data := by
  cases head with
  | sendInLoop conn data => exact ⟨conn, data, rfl⟩
  | connectEstablished conn =>
      rw [List.mem_singleton.mp he] at hcall
      cases hcall
  | connectDestroyed conn =>
      simp only [effectsOf, Site.connectDestroyed] at he
      split_ifs at he
      · rw [List.mem_singleton.mp he] at hcall
        cases hcall
      · cases he
  | shutdownInLoop conn =>
      simp only [effectsOf, Connection.shutdownInLoop] at he
      split_ifs at he
      · cases he
      · rw [List.mem_singleton.mp he] at hcall
        cases hcall
  | handleWrite conn =>
      simp only [effectsOf] at he
      split at he
      · next r hr =>
          obtain ⟨taken, rfl⟩ := handleWrite_effects hr he
          cases hcall
      · cases he
  | handleClose conn =>
      rcases List.mem_cons.mp he with rfl | he
      · cases hcall
      · rw [List.mem_singleton.mp he] at hcall
        cases hcall
  | handleError _ | listen | newConnection _ | postEstablished _ | removeConnection _
  | removeConnectionInLoop _ | handleRead _ | callback _ _ | closeCallback _ _ | userCode =>
      cases he

theorem held_of_callsOf {conn : ℕ} {c : Connection} (hc : Equipped c) {effects : List Effect}
    {call : Call} (h : call ∈ effects.flatMap (callsOf conn c)) : Held call := by
  obtain ⟨effect, -, hcall⟩ := List.mem_flatMap.mp h
  cases effect with
  | connectionCallback _ =>
      rw [List.mem_singleton.mp hcall]
      exact hc.connectionCallback
  | messageCallback =>
      rw [List.mem_singleton.mp hcall]
      exact hc.messageCallback
  | closeCallback =>
      rw [List.mem_singleton.mp hcall]
      exact hc.closeCallback
  | queueWriteComplete | queueHighWaterMark _ | queueSendInLoop _ | queueShutdownInLoop
  | accepted _ | shutdownWrite => cases hcall

/-- What a call queues has a target, where the call is announceable. -/
theorem held_of_functorsOf {s : Server} {kernel : Kernel} {head call : Call} {conn : ℕ} {c : Conn}
    (hconn : connOf head = some conn) (hc : s.conns[conn]? = some c)
    (ha : AnnounceableCall s kernel head)
    (h : call ∈ (effectsOf s kernel c head).flatMap (functorsOf c.connection)) : Held call := by
  obtain ⟨effect, he, hcall⟩ := List.mem_flatMap.mp h
  obtain ⟨i, data, rfl⟩ := sendInLoop_of_functorsOf he hcall
  cases hconn
  cases effect with
  | queueWriteComplete =>
      rw [List.mem_singleton.mp hcall]
      exact sendInLoop_writeComplete he
  | queueHighWaterMark size =>
      rw [List.mem_singleton.mp hcall]
      obtain ⟨hstate, hcross⟩ := (sendInLoop_highWaterMark ..).mp ⟨size, he⟩
      exact ha c hc hstate hcross
  | connectionCallback _ | messageCallback | closeCallback | queueSendInLoop _
  | queueShutdownInLoop | accepted _ | shutdownWrite => cases hcall

theorem event_held {event : Event} {call : Call} (h : call ∈ event.calls) : Held call := by
  cases event with
  | accept sockfd =>
      rw [List.mem_singleton.mp h]
      trivial
  | channel conn handlers =>
      obtain ⟨handler, -, rfl⟩ := List.mem_map.mp h
      cases handler with
      | read | write | close | error => trivial

theorem spawns_held {s : Server} (h : Targeted s) {t u : ThreadId} {kernel : Kernel}
    {head call : Call} (ha : AnnounceableCall s kernel head)
    (hs : Spawns s t kernel head u call) : Held call := by
  cases hs with
  | calls _ hc hmem => exact held_of_callsOf (h.outfitted.conns _ _ hc) hmem
  | queues hconn hc hmem => exact held_of_functorsOf hconn hc ha hmem
  | message hc => exact (h.outfitted.conns _ _ hc).messageCallback
  | newConnection _ | postEstablished _ | removeConnection _ | removeConnectionInLoop _
  | readClose _ | readError _ | callback _ | close _ | userClose _ => trivial

theorem brings_held {s : Server} (h : Targeted s) {a : Action} (ha : Guarded s a) {t : ThreadId}
    {call : Call} (hb : Brings s a t call) : Held call := by
  cases hb with
  | poll _ _ hcall => exact event_held hcall
  | @exec t' _ kernel head _ rest hcalls hspawns =>
      refine spawns_held h (ha head ?_) hspawns
      rw [hcalls]
      rfl
  | threadInit _ _ _ => rfl
  | send _ _ _ | shutdown _ _ | listen _ | destroy _ _ => trivial

theorem equipped_same {c d : Conn} (h : Equipped c.connection) (k : Same c d) :
    Equipped d.connection :=
  ⟨k.connectionCallback h.connectionCallback, k.messageCallback h.messageCallback,
    k.closeCallback h.closeCallback⟩

theorem Outfitted.still {s u : Server} (h : Outfitted s) (k : Still s u) : Outfitted u := by
  constructor
  · intro conn d hd
    obtain ⟨c, hc, hsame⟩ := k.before hd
    exact equipped_same (h.conns conn c hc) hsame
  · exact ⟨k.callbacks _ h.server.1, k.callbacks _ h.server.2⟩

theorem Outfitted.addConnection {s : Server} (h : Outfitted s) (sockfd : ℕ) :
    Outfitted (s.addConnection sockfd) := by
  refine ⟨?_, h.server⟩
  intro conn c hc
  rcases addConnection_conns.mp hc with hold | ⟨-, rfl⟩
  · exact h.conns conn c hold
  · exact ⟨h.server.1, h.server.2, rfl⟩

theorem step_outfitted {s u : Server} {a : Action} (h : Outfitted s) (ht : step s a = some u) :
    Outfitted u := by
  apply step_preserves _ _ _ _ _ h ht
  · exact Outfitted.still
  · exact fun sockfd hs => hs.addConnection sockfd
  · exact fun _ hs => ⟨hs.conns, hs.server⟩
  · exact fun _ _ _ hs => ⟨hs.conns, hs.server⟩
  · exact fun hs => ⟨hs.conns, hs.server⟩

theorem step_targeted (s : Server) (a : Action) (u : Server) (h : Targeted s) (ha : Guarded s a)
    (ht : step s a = some u) : Targeted u := by
  constructor
  · intro e he
    rcases step_log ht he with hold | hpending
    · exact h.noneEmpty e hold
    · exact h.pending e.1 e.2 hpending
  · intro t call hcall
    rcases step_pending ht hcall with hold | hbrings
    · exact h.pending t call hold
    · exact brings_held h ha hbrings
  · exact step_outfitted h.outfitted ht

theorem create_targeted (name ipPort : String) (threadNum : ℕ) {callbacks : Callback → Bool}
    (hconnection : callbacks .connection = true) (hmessage : callbacks .message = true) :
    Targeted (Server.create name ipPort threadNum callbacks) := by
  refine ⟨?_, ?_, ?_, hconnection, hmessage⟩
  · intro e he
    cases he
  · rintro t call (hcall | ⟨loop, -, hmem⟩)
    · cases hcall
    · cases hmem
  · intro conn c hc
    cases hc

/-- A server with the connection and the message callback and no other. -/
def echoServer : Server :=
  Server.create "echoserver" "0.0.0.0:8888" 0 fun callback =>
    callback = .connection ∨ callback = .message

/-- A client connects, and the connection callback is entered. -/
def greeting : List Action :=
  [.start (.loop .base), .exec (.loop .base) .blocked, .poll .base [.accept 5],
    .exec (.loop .base) .blocked, .exec (.loop .base) .blocked, .exec (.loop .base) .blocked,
    .exec (.loop .base) .blocked]

/-- The callback sends and returns. -/
def reply (data : Bytes) : List Action :=
  [.send (.loop .base) 0 data, .exec (.loop .base) .blocked, .leave (.loop .base)]

/-- The loop runs its next functor. -/
def functor : List Action := [.swap .base, .next .base, .exec (.loop .base) .blocked]

/-- The callback of a new connection is about to send for the first time. -/
structure Ready (s : Server) (c : Conn) : Prop where
  calls : s.calls (.loop .base) = [.userCode]
  batch : (s.loops .base).batch = []
  pending : (s.loops .base).pendingFunctors = []
  conn : s.conns[0]? = some c
  loop : c.loop = .base
  channelLoop : c.channelLoop = .base
  state : c.connection.state = .kConnected
  writing : c.connection.channel.isWriting = false
  output : c.connection.outputBuffer.readableBytes = 0
  mark : c.connection.highWaterMark = 64 * 1024 * 1024
  unset : c.connection.highWaterMarkCallback = false

theorem greeted : ∃ s ∈ run step echoServer greeting, ∃ c ∈ s.conns[0]?,
    s.calls (.loop .base) = [.userCode] ∧ (s.loops .base).batch = [] ∧
    (s.loops .base).pendingFunctors = [] ∧ c.loop = .base ∧ c.channelLoop = .base ∧
    c.connection.state = .kConnected ∧ c.connection.channel.isWriting = false ∧
    c.connection.outputBuffer.readableBytes = 0 ∧
    c.connection.highWaterMark = 64 * 1024 * 1024 ∧
    c.connection.highWaterMarkCallback = false := by
  decide +kernel

/-- A reply as long as the mark, of which the socket takes nothing, calls the
callback that has not been set. -/
theorem reply_calls_empty {s : Server} {c : Conn} (h : Ready s c) {data : Bytes}
    (hdata : data.length = 64 * 1024 * 1024) :
    ∃ u, run step s (reply data ++ functor) = some u ∧ ¬ NoneEmpty u := by
  have hsend : c.connection.sendInLoop data Kernel.blocked.write =
      (c.connection, [.queueHighWaterMark (64 * 1024 * 1024)]) := by
    simp [Connection.sendInLoop, Connection.checkHighWaterMark, h.state, h.writing, h.output,
      h.mark, Kernel.blocked, hdata, addSize]
  have hcalled : ∃ u, run step s (reply data ++ functor) = some u ∧
      (.loop .base, .callback .highWaterMark false) ∈ u.log := by
    simp [reply, functor, run, step, Server.send, Server.inUserCode, h.calls, h.state,
      Server.postInLoop, h.loop, Server.call, Server.setCalls, Server.made, Server.execute, hsend,
      Server.settleConnection, Server.settle, Server.setLoop, Server.queueInLoop, functorsOf,
      callsOf, h.unset, h.channelLoop, Server.idle, h.batch, h.pending, Server.withConn, h.conn]
  obtain ⟨u, hu, hempty⟩ := hcalled
  refine ⟨u, hu, ?_⟩
  intro hnone
  cases hnone _ hempty

end Netmux.CallbackTargets
