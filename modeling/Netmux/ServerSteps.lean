import Netmux.ServerCalls

/-!
# What the steps of a server keep

Few steps touch more than the calls to be made: connections keep their loops,
names and callbacks, the pollers watch them for their own loops, and the table
changes with `newConnection`, `removeConnectionInLoop` and the destructor only.
-/
namespace Netmux.ServerThreads
open SocketBuffer ChannelPoller TcpConnection
open TcpServer (LoopId)

/-- What no method changes of a connection, and what it may do to the poller. -/
structure Site.Kept (s r : Site) : Prop where
  name : r.connection.name = s.connection.name
  address : r.connection.channel.address = s.connection.channel.address
  connectionCallback : r.connection.connectionCallback = s.connection.connectionCallback
  messageCallback : r.connection.messageCallback = s.connection.messageCallback
  closeCallback : r.connection.closeCallback = s.connection.closeCallback
  interest : ∀ fd e, r.poller.interest fd = some e →
    s.poller.interest fd = some e ∨ e.ptr = s.connection.channel.address

theorem Site.Kept.trans {s r q : Site} (h : Kept s r) (k : Kept r q) : Kept s q := by
  constructor
  · exact k.name.trans h.name
  · exact k.address.trans h.address
  · exact k.connectionCallback.trans h.connectionCallback
  · exact k.messageCallback.trans h.messageCallback
  · exact k.closeCallback.trans h.closeCallback
  · intro fd e he
    rcases k.interest fd e he with hold | hnew
    · exact h.interest fd e hold
    · exact .inr (hnew.trans h.address)

/-- A change of the connection that leaves its name, address and callbacks. -/
theorem Site.Kept.of_connection {s : Site} {c : Connection} (hname : c.name = s.connection.name)
    (haddress : c.channel.address = s.connection.channel.address)
    (hconnection : c.connectionCallback = s.connection.connectionCallback)
    (hmessage : c.messageCallback = s.connection.messageCallback)
    (hclose : c.closeCallback = s.connection.closeCallback) : Kept s ⟨c, s.poller⟩ :=
  ⟨hname, haddress, hconnection, hmessage, hclose, fun _ _ => .inl⟩

theorem Site.Kept.setState (s : Site) (state : StateE) : Kept s (s.setState state) :=
  .of_connection rfl rfl rfl rfl rfl

/-- An operation of the channel sets a mask and updates. -/
theorem Site.Kept.onChannel {s : Site} {events : EventMask}
    {f : Channel ℕ → Ctl ℕ → EPollPoller ℕ → EPollPoller ℕ × Channel ℕ}
    (h : f s.connection.channel epollCtl s.poller =
      s.poller.updateChannel epollCtl (s.connection.channel.withEvents events)) :
    Kept s (s.onChannel f) := by
  obtain ⟨status, hc, -⟩ := EPollPoller.updateChannel_channel epollCtl s.poller
    (s.connection.channel.withEvents events)
  constructor
  · rfl
  · show (f s.connection.channel epollCtl s.poller).2.address = _
    rw [h, hc]
    rfl
  · rfl
  · rfl
  · rfl
  · intro fd e he
    have he : (f s.connection.channel epollCtl s.poller).1.interest fd = some e := he
    rw [h] at he
    exact (EPollPoller.updateChannel_entry he).imp_right And.right

theorem Site.Kept.connectEstablished (s : Site) : Kept s s.connectEstablished.1 := by
  have htied : Kept (s.setState .kConnected) ⟨{ (s.setState .kConnected).connection with
      channel := s.connection.channel.tie }, s.poller⟩ := .of_connection rfl rfl rfl rfl rfl
  exact ((Kept.setState s .kConnected).trans htied).trans
    (.onChannel (f := Channel.enableReading) rfl)

theorem Site.Kept.handleClose (s : Site) : Kept s s.handleClose.1 :=
  (Kept.setState s .kDisconnected).trans (.onChannel (f := Channel.disableAll) rfl)

theorem Site.Kept.connectDestroyed (s : Site) : Kept s s.connectDestroyed.1 := by
  unfold Site.connectDestroyed
  split_ifs
  · exact (Kept.handleClose s).trans (.onChannel (f := Channel.remove) rfl)
  · exact .onChannel (f := Channel.remove) rfl

theorem Site.Kept.handleWrite {s : Site} {write : Bytes → WriteAnswer}
    {r : Connection × List Effect} (h : s.connection.handleWrite write = .ok r) :
    Kept s ⟨r.1, s.poller⟩ := by
  rw [Connection.handleWrite_fst h]
  exact .of_connection rfl rfl rfl rfl rfl

theorem Site.Kept.sendInLoop (s : Site) (data : Bytes) (write : Bytes → WriteAnswer) :
    Kept s ⟨(s.connection.sendInLoop data write).1, s.poller⟩ := by
  rw [Connection.sendInLoop_fst]
  exact .of_connection rfl rfl rfl rfl rfl

/-- A connection that is still the same, with no callback taken away. -/
structure Same (c d : Conn) : Prop where
  loop : d.loop = c.loop
  channelLoop : d.channelLoop = c.channelLoop
  name : d.connection.name = c.connection.name
  address : d.connection.channel.address = c.connection.channel.address
  connectionCallback : c.connection.connectionCallback = true →
    d.connection.connectionCallback = true
  messageCallback : c.connection.messageCallback = true → d.connection.messageCallback = true
  closeCallback : c.connection.closeCallback = true → d.connection.closeCallback = true

theorem Same.refl (c : Conn) : Same c c := ⟨rfl, rfl, rfl, rfl, id, id, id⟩

theorem Same.trans {c d e : Conn} (h : Same c d) (k : Same d e) : Same c e :=
  ⟨k.loop.trans h.loop, k.channelLoop.trans h.channelLoop, k.name.trans h.name,
    k.address.trans h.address, fun hc => k.connectionCallback (h.connectionCallback hc),
    fun hc => k.messageCallback (h.messageCallback hc),
    fun hc => k.closeCallback (h.closeCallback hc)⟩

/-- The connections are the same, the table is, and nothing new is watched but
connections by their own loops and the acceptor by the base loop. -/
structure Still (s u : Server) : Prop where
  conns : ∀ conn : ℕ, Option.Rel Same s.conns[conn]? u.conns[conn]?
  interest : ∀ loop fd e, (u.loops loop).poller.interest fd = some e →
    (s.loops loop).poller.interest fd = some e ∨
      ∃ (conn : ℕ) (c : Conn), s.conns[conn]? = some c ∧ loop = c.channelLoop ∧
        e.ptr = c.connection.channel.address
  accepts : ∀ loop, (u.loops loop).accepts = true → (s.loops loop).accepts = true ∨ loop = .base
  log : u.log = s.log
  callbacks : ∀ callback, s.callbacks callback = true → u.callbacks callback = true
  name : u.name = s.name
  ipPort : u.ipPort = s.ipPort
  nextConnId : u.nextConnId = s.nextConnId
  connections : u.connections = s.connections
  removed : u.removed = s.removed
  destroyed : u.destroyed = s.destroyed

/-- A connection that is there was there before. -/
theorem Still.before {s u : Server} (h : Still s u) {conn : ℕ} {d : Conn}
    (hd : u.conns[conn]? = some d) : ∃ c, s.conns[conn]? = some c ∧ Same c d := by
  have hrel := h.conns conn
  rw [hd] at hrel
  generalize hc : s.conns[conn]? = c at hrel
  cases hrel with
  | some hsame => exact ⟨_, rfl, hsame⟩

theorem rel_refl (s : Server) (conn : ℕ) : Option.Rel Same s.conns[conn]? s.conns[conn]? := by
  cases s.conns[conn]? with
  | none => exact .none
  | some c => exact .some (.refl c)

theorem Still.refl (s : Server) : Still s s :=
  ⟨rel_refl s, fun _ _ _ => .inl, fun _ => .inl, rfl, fun _ => id, rfl, rfl, rfl, rfl, rfl, rfl⟩

theorem Still.trans {s u v : Server} (h : Still s u) (k : Still u v) : Still s v := by
  constructor
  · intro conn
    have hs := h.conns conn
    have hu := k.conns conn
    generalize s.conns[conn]? = c at hs ⊢
    generalize u.conns[conn]? = d at hs hu
    cases hs with
    | none => exact hu
    | some hsame =>
        generalize v.conns[conn]? = e at hu ⊢
        cases hu with
        | some hsame' => exact .some (hsame.trans hsame')
  · intro loop fd e he
    rcases k.interest loop fd e he with hmid | ⟨conn, d, hd, hloop, hptr⟩
    · exact h.interest loop fd e hmid
    · obtain ⟨c, hc, hsame⟩ := h.before hd
      exact .inr ⟨conn, c, hc, hloop.trans hsame.channelLoop, hptr.trans hsame.address⟩
  · intro loop ha
    rcases k.accepts loop ha with hmid | hbase
    · exact h.accepts loop hmid
    · exact .inr hbase
  · exact k.log.trans h.log
  · exact fun callback hheld => k.callbacks callback (h.callbacks callback hheld)
  · exact k.name.trans h.name
  · exact k.ipPort.trans h.ipPort
  · exact k.nextConnId.trans h.nextConnId
  · exact k.connections.trans h.connections
  · exact k.removed.trans h.removed
  · exact k.destroyed.trans h.destroyed

theorem Still.length {s u : Server} (h : Still s u) : u.conns.length = s.conns.length := by
  apply eq_of_forall_ge_iff
  intro conn
  have hrel := h.conns conn
  rw [← List.getElem?_eq_none_iff, ← List.getElem?_eq_none_iff]
  generalize s.conns[conn]? = c at hrel ⊢
  generalize u.conns[conn]? = d at hrel ⊢
  cases hrel with
  | none => rfl
  | some _ => simp

/-- Only what there is to call differs, in the threads and in the loops. -/
theorem Still.of_loops {s : Server} {calls : ThreadId → List Call} {loops : LoopId → LoopState}
    (hpoller : ∀ loop, (loops loop).poller = (s.loops loop).poller)
    (haccepts : ∀ loop, (loops loop).accepts = true →
      (s.loops loop).accepts = true ∨ loop = .base) :
    Still s { s with calls := calls, loops := loops } := by
  refine ⟨rel_refl s, ?_, haccepts, rfl, fun _ => id, rfl, rfl, rfl, rfl, rfl, rfl⟩
  intro loop fd e he
  have he : (loops loop).poller.interest fd = some e := he
  rw [hpoller] at he
  exact .inl he

theorem still_setCalls (s : Server) (t : ThreadId) (calls : List Call) :
    Still s (s.setCalls t calls) := .of_loops (fun _ => rfl) fun _ => .inl

theorem still_call (s : Server) (t : ThreadId) (calls : List Call) : Still s (s.call t calls) :=
  still_setCalls s t _

/-- A loop with another batch, other functors, or the acceptor watched by the base loop. -/
theorem still_setLoop {s : Server} {loop : LoopId} {l : LoopState}
    (hpoller : l.poller = (s.loops loop).poller)
    (haccepts : l.accepts = true → (s.loops loop).accepts = true ∨ loop = .base) :
    Still s (s.setLoop loop l) := by
  refine .of_loops ?_ ?_
  · intro other
    by_cases ho : other = loop
    · subst ho
      rw [Function.update_self]
      exact hpoller
    · rw [Function.update_of_ne ho]
  · intro other ha
    by_cases ho : other = loop
    · subst ho
      rw [Function.update_self] at ha
      exact haccepts ha
    · rw [Function.update_of_ne ho] at ha
      exact .inl ha

theorem still_queueInLoop (s : Server) (loop : LoopId) (functors : List Call) :
    Still s (s.queueInLoop loop functors) := still_setLoop rfl .inl

theorem still_postInLoop (s : Server) (t : ThreadId) (loop : LoopId) (functor : Call) :
    Still s (s.postInLoop t loop functor) := by
  unfold Server.postInLoop
  split_ifs
  · exact still_call ..
  · exact still_queueInLoop ..

theorem still_setAccepts (s : Server) (accepts : Bool) : Still s (s.setAccepts accepts) :=
  still_setLoop rfl fun _ => .inr rfl

/-- A connection is replaced by itself as it is now. -/
theorem still_setConn {s : Server} {conn : ℕ} {c d : Conn} (hc : s.conns[conn]? = some c)
    (hsame : Same c d) : Still s { s with conns := s.conns.set conn d } := by
  refine ⟨?_, fun _ _ _ => .inl, fun _ => .inl, rfl, fun _ => id, rfl, rfl, rfl, rfl, rfl, rfl⟩
  intro other
  by_cases ho : conn = other
  · subst ho
    have hlt := (List.getElem?_eq_some_iff.mp hc).1
    rw [hc, List.getElem?_set_self hlt]
    exact .some hsame
  · rw [List.getElem?_set_ne ho]
    exact rel_refl s other

/-- The poller of a connection's channel with new entries for that one only. -/
theorem still_setPoller {s : Server} {conn : ℕ} {c : Conn} (hc : s.conns[conn]? = some c)
    {loop : LoopId} (hloop : loop = c.channelLoop) {p : EPollPoller ℕ}
    (hp : ∀ fd e, p.interest fd = some e →
      (s.loops loop).poller.interest fd = some e ∨ e.ptr = c.connection.channel.address) :
    Still s (s.setLoop loop { s.loops loop with poller := p }) := by
  refine ⟨rel_refl s, ?_, ?_, rfl, fun _ => id, rfl, rfl, rfl, rfl, rfl, rfl⟩
  · intro other fd e he
    by_cases ho : other = loop
    · subst ho
      simp only [Server.setLoop, Function.update_self] at he
      exact (hp fd e he).imp_right fun hptr => ⟨conn, c, hc, hloop, hptr⟩
    · simp only [Server.setLoop, Function.update_of_ne ho] at he
      exact .inl he
  · intro other ha
    by_cases ho : other = loop
    · subst ho
      simp only [Server.setLoop, Function.update_self] at ha
      exact .inl ha
    · simp only [Server.setLoop, Function.update_of_ne ho] at ha
      exact .inl ha

/-- A method of a connection that keeps its site. -/
theorem still_settle {s : Server} {t : ThreadId} {conn : ℕ} {c : Conn} {r : Site × List Effect}
    (hc : s.conns[conn]? = some c) (hr : Site.Kept (s.site c) r.1) :
    Still s (s.settle t conn c r) := by
  have hconn : Still s { s with
      conns := s.conns.set conn { c with connection := r.1.connection } } := by
    refine still_setConn hc ⟨rfl, rfl, hr.name, hr.address, ?_, ?_, ?_⟩
    · exact fun hheld => hr.connectionCallback.trans hheld
    · exact fun hheld => hr.messageCallback.trans hheld
    · exact fun hheld => hr.closeCallback.trans hheld
  have hnow : (s.conns.set conn { c with connection := r.1.connection })[conn]? =
      some { c with connection := r.1.connection } :=
    List.getElem?_set_self (List.getElem?_eq_some_iff.mp hc).1
  refine hconn.trans ((still_setPoller (c := { c with connection := r.1.connection }) hnow rfl
    ?_).trans ((still_queueInLoop ..).trans (still_call ..)))
  intro fd e he
  rw [hr.address]
  exact hr.interest fd e he

theorem still_settleConnection {s : Server} {t : ThreadId} {conn : ℕ} {c : Conn}
    {r : Connection × List Effect} (hc : s.conns[conn]? = some c)
    (hr : Site.Kept (s.site c) ⟨r.1, (s.site c).poller⟩) :
    Still s (s.settleConnection t conn c r) := still_settle hc hr

theorem still_withConn {s : Server} {conn : ℕ} {f : Conn → Server}
    (hf : ∀ c, s.conns[conn]? = some c → Still s (f c)) : Still s (s.withConn conn f) :=
  withConn_cases (.refl s) hf

theorem still_handleRead {s : Server} {t : ThreadId} {conn : ℕ} {c : Conn}
    (hc : s.conns[conn]? = some c) (readv : List ℕ → ReadvAnswer) :
    Still s (s.handleRead t conn c readv) := by
  unfold Server.handleRead
  split
  · next buffer n _ =>
      have hset : Still s (s.setConnection conn c { c.connection with inputBuffer := buffer }) :=
        still_setConn hc ⟨rfl, rfl, rfl, rfl, id, id, id⟩
      cases n with
      | count n =>
          cases n with
          | zero => exact hset.trans (still_call ..)
          | succ n => exact hset.trans (still_call ..)
      | failed errno => exact hset.trans (still_call ..)
  · exact .refl s

theorem still_handleWrite {s : Server} {t : ThreadId} {conn : ℕ} {c : Conn}
    (hc : s.conns[conn]? = some c) (write : Bytes → WriteAnswer) :
    Still s (s.handleWrite t conn c write) := by
  unfold Server.handleWrite
  split
  · next r hr => exact still_settleConnection hc (.handleWrite hr)
  · exact .refl s

/-- Every call but two leaves connections and table as they are. -/
theorem execute_cases (s : Server) (t : ThreadId) (kernel : Kernel) (head : Call) :
    Still s (s.execute t kernel head) ∨
    (∃ sockfd, head = .newConnection sockfd ∧
      s.execute t kernel head = s.newConnection t sockfd) ∨
    ∃ conn c, head = .removeConnectionInLoop conn ∧ s.conns[conn]? = some c ∧
      s.execute t kernel head = s.removeConnectionInLoop conn c := by
  cases head with
  | newConnection sockfd => exact .inr (.inl ⟨sockfd, rfl, rfl⟩)
  | removeConnectionInLoop conn =>
      cases hc : s.conns[conn]? with
      | none =>
          left
          dsimp only [Server.execute]
          rw [withConn_none hc]
          exact .refl s
      | some c => exact .inr (.inr ⟨conn, c, rfl, hc, withConn_eq hc _⟩)
  | listen => exact .inl (still_setAccepts ..)
  | postEstablished conn => exact .inl (still_withConn fun c _ => still_postInLoop ..)
  | removeConnection conn => exact .inl (still_postInLoop ..)
  | connectEstablished conn =>
      exact .inl (still_withConn fun c hc => still_settle hc (.connectEstablished _))
  | connectDestroyed conn =>
      exact .inl (still_withConn fun c hc => still_settle hc (.connectDestroyed _))
  | sendInLoop conn data =>
      exact .inl (still_withConn fun c hc =>
        still_settleConnection hc (.sendInLoop (s.site c) data kernel.write))
  | shutdownInLoop conn | handleError conn =>
      exact .inl (still_withConn fun c hc => still_settle hc (.of_connection rfl rfl rfl rfl rfl))
  | handleRead conn => exact .inl (still_withConn fun c hc => still_handleRead hc _)
  | handleWrite conn => exact .inl (still_withConn fun c hc => still_handleWrite hc _)
  | handleClose conn => exact .inl (still_withConn fun c hc => still_settle hc (.handleClose _))
  | callback callback held =>
      left
      dsimp only [Server.execute]
      split_ifs
      · exact still_call ..
      · exact .refl s
  | closeCallback conn held =>
      refine .inl (still_withConn fun c _ => ?_)
      cases held with
      | false => exact .refl s
      | true => exact still_call ..
  | userCode => exact .inl (.refl s)

theorem still_foldl_call (indices : List ℕ) (calls : List Call) (s : Server) :
    Still s (indices.foldl (fun s i => s.call (.loop (.io i)) calls) s) := by
  induction indices generalizing s with
  | nil => exact .refl s
  | cons i indices ih => exact (still_call ..).trans (ih _)

theorem still_initThreads (s : Server) (t : ThreadId) (first : ℕ) :
    Still s (s.initThreads t first) := by
  unfold Server.initThreads
  dsimp only
  split_ifs
  · exact still_call ..
  · exact still_foldl_call ..
  · exact .refl s

theorem still_start (s : Server) (t : ThreadId) : Still s (s.start t) := by
  have hstarted : ∀ started pool, Still s { s with started := started, pool := pool } :=
    fun _ _ => ⟨rel_refl s, fun _ _ _ => .inl, fun _ => .inl, rfl, fun _ => id, rfl, rfl, rfl, rfl,
      rfl, rfl⟩
  unfold Server.start
  split_ifs
  · exact (hstarted _ _).trans ((still_postInLoop ..).trans (still_initThreads ..))
  · exact hstarted _ s.pool

theorem still_postDestroyed (conns : List ℕ) (s : Server) (t : ThreadId) :
    Still s (s.postDestroyed t conns) := by
  unfold Server.postDestroyed
  induction conns generalizing s with
  | nil => exact .refl s
  | cons i conns ih =>
      rw [List.foldl_cons]
      exact (still_withConn fun c _ => still_postInLoop ..).trans (ih _)

/-- What a step can do: leave connections and table as they are, destroy the
server, or make a call. -/
theorem step_cases {s u : Server} {a : Action} (ht : step s a = some u) :
    Still s u ∨ (∃ t, a = .destroy t ∧ u = s.destroy t) ∨
    ∃ t kernel head calls, a = .exec t kernel ∧ s.calls t = head :: calls ∧
      u = (s.made t head calls).execute t kernel head := by
  cases a with
  | poll loop events =>
      simp only [step, Option.ite_none_right_eq_some, Option.some.injEq] at ht
      obtain ⟨-, rfl⟩ := ht
      exact .inl (still_call ..)
  | swap loop =>
      simp only [step, Option.ite_none_right_eq_some, Option.some.injEq] at ht
      obtain ⟨-, rfl⟩ := ht
      exact .inl (still_setLoop rfl .inl)
  | next loop =>
      simp only [step] at ht
      split at ht
      · next functor batch _ _ =>
          cases ht
          have hbatch : Still s (s.setLoop loop { s.loops loop with batch := batch }) :=
            still_setLoop rfl .inl
          exact .inl (hbatch.trans (still_call ..))
      · cases ht
  | exec t kernel =>
      simp only [step] at ht
      split at ht
      · cases ht
      · cases ht
      · next head calls _ hcalls =>
          cases ht
          exact .inr (.inr ⟨t, kernel, head, calls, rfl, hcalls, rfl⟩)
  | leave t =>
      simp only [step] at ht
      split at ht
      · cases ht
        exact .inl (still_setCalls ..)
      · cases ht
  | send t conn buf =>
      simp only [step, Option.ite_none_right_eq_some, Option.some.injEq] at ht
      obtain ⟨-, rfl⟩ := ht
      refine .inl (still_withConn fun c _ => ?_)
      split_ifs
      · exact still_postInLoop ..
      · exact .refl s
  | shutdown t conn =>
      simp only [step, Option.ite_none_right_eq_some, Option.some.injEq] at ht
      obtain ⟨-, rfl⟩ := ht
      refine .inl (still_withConn fun c hc => ?_)
      split_ifs
      · have hset : Still s (s.setConnection conn c (c.connection.setState .kDisconnecting)) :=
          still_setConn hc ⟨rfl, rfl, rfl, rfl, id, id, id⟩
        exact hset.trans (still_postInLoop ..)
      · exact .refl s
  | start t =>
      simp only [step, Option.ite_none_right_eq_some, Option.some.injEq] at ht
      obtain ⟨-, rfl⟩ := ht
      exact .inl (still_start s t)
  | destroy t =>
      simp only [step, Option.ite_none_right_eq_some, Option.some.injEq] at ht
      obtain ⟨-, rfl⟩ := ht
      exact .inr (.inl ⟨t, rfl, rfl⟩)
  | setCallback callback =>
      cases ht
      refine .inl ⟨rel_refl s, fun _ _ _ => .inl, fun _ => .inl, rfl, ?_, rfl, rfl, rfl, rfl, rfl,
        rfl⟩
      intro other hheld
      by_cases ho : other = callback
      · subst ho
        exact Function.update_self ..
      · exact (Function.update_of_ne ho ..).trans hheld
  | useInput conn left | setWriteCompleteCallback conn | setHighWaterMarkCallback conn mark =>
      cases ht
      exact .inl (still_withConn fun c hc => still_setConn hc ⟨rfl, rfl, rfl, rfl, id, id, id⟩)
  | setConnectionCallback conn =>
      cases ht
      exact .inl (still_withConn fun c hc =>
        still_setConn hc ⟨rfl, rfl, rfl, rfl, fun _ => rfl, id, id⟩)
  | setMessageCallback conn =>
      cases ht
      exact .inl (still_withConn fun c hc =>
        still_setConn hc ⟨rfl, rfl, rfl, rfl, id, fun _ => rfl, id⟩)
  | setCloseCallback conn =>
      cases ht
      exact .inl (still_withConn fun c hc =>
        still_setConn hc ⟨rfl, rfl, rfl, rfl, id, id, fun _ => rfl⟩)

theorem still_newConnection (s : Server) (t : ThreadId) (sockfd : ℕ) :
    Still (s.addConnection sockfd) (s.newConnection t sockfd) := still_call ..

theorem still_removeConnectionInLoop (s : Server) (conn : ℕ) (c : Conn) :
    Still (s.eraseConnection conn c) (s.removeConnectionInLoop conn c) := still_queueInLoop ..

theorem execute_log (s : Server) (t : ThreadId) (kernel : Kernel) (head : Call) :
    (s.execute t kernel head).log = s.log := by
  rcases execute_cases s t kernel head with h | ⟨sockfd, -, he⟩ | ⟨conn, c, -, -, he⟩
  · exact h.log
  · rw [he]
    exact (still_newConnection s t sockfd).log
  · rw [he]
    exact (still_removeConnectionInLoop s conn c).log

/-- A call that was made was to be made before. -/
theorem step_log {s u : Server} {a : Action} (ht : step s a = some u) {e : ThreadId × Call}
    (he : e ∈ u.log) : e ∈ s.log ∨ s.Pending e.1 e.2 := by
  rcases step_cases ht with h | ⟨t, -, rfl⟩ | ⟨t, kernel, head, calls, -, hcalls, rfl⟩
  · exact .inl (h.log ▸ he)
  · have hlog : (s.destroy t).log = s.log := (still_postDestroyed s.tabled s t).log
    exact .inl (hlog ▸ he)
  · rw [execute_log] at he
    rcases List.mem_cons.mp he with rfl | hold
    · exact .inr (.inl (hcalls ▸ List.mem_cons_self ..))
    · exact .inl hold

/-- What a step preserves: it is enough to look at the few things that change
more than the calls to be made. -/
theorem step_preserves {P : Server → Prop} (hstill : ∀ {s u}, P s → Still s u → P u)
    (hadd : ∀ {s} sockfd, P s → P (s.addConnection sockfd))
    (herase : ∀ {s : Server} {conn : ℕ} {c : Conn}, s.conns[conn]? = some c → P s →
      P (s.eraseConnection conn c))
    (hmade : ∀ {s} t head calls, P s → P (Server.made s t head calls))
    (hclear : ∀ {s : Server}, P s → P { s with connections := fun _ => none, destroyed := true })
    {s u : Server} {a : Action} (h : P s) (ht : step s a = some u) : P u := by
  rcases step_cases ht with hs | ⟨t, -, rfl⟩ | ⟨t, kernel, head, calls, -, -, rfl⟩
  · exact hstill h hs
  · exact hclear (hstill h ((still_postDestroyed s.tabled s t).trans (still_setAccepts _ false)))
  · have hm : P (s.made t head calls) := hmade t head calls h
    rcases execute_cases (s.made t head calls) t kernel head with
      hs | ⟨sockfd, -, he⟩ | ⟨conn, c, -, hc, he⟩
    · exact hstill hm hs
    · rw [he]
      exact hstill (hadd sockfd hm) (still_newConnection ..)
    · rw [he]
      exact hstill (herase hc hm) (still_removeConnectionInLoop ..)

/-- A new connection comes after the others. -/
theorem addConnection_conns {s : Server} {sockfd conn : ℕ} {c : Conn} :
    (s.addConnection sockfd).conns[conn]? = some c ↔
      s.conns[conn]? = some c ∨ (conn = s.conns.length ∧ c = s.accepted sockfd) := by
  show (s.conns ++ [s.accepted sockfd])[conn]? = some c ↔ _
  rcases Nat.lt_trichotomy conn s.conns.length with hlt | rfl | hgt
  · rw [List.getElem?_append_left hlt]
    exact ⟨.inl, fun h => h.elim id fun hnew => absurd hnew.1 (Nat.ne_of_lt hlt)⟩
  · rw [List.getElem?_concat_length, List.getElem?_eq_none (Nat.le_refl _)]
    simp [eq_comm]
  · have hlong : (s.conns ++ [s.accepted sockfd]).length ≤ conn := by
      rw [List.length_append]
      exact hgt
    rw [List.getElem?_eq_none hlong, List.getElem?_eq_none (Nat.le_of_lt hgt)]
    simp [Nat.ne_of_gt hgt]

end Netmux.ServerThreads
