import Netmux.ActionRuns
import Netmux.RoundRobin
import Netmux.ServerSteps

/-!
# The load of the loops

Only `start` gives a server its pool, and only after it a listening socket, so
that every connection is made by a server whose pool is complete. The loops of the
pool then take the connections in turn, whatever the threads of the server and its
user do in between: the counts of two loops differ by one at most. This is so until
the counter of the starts wraps around and the pool is started once more.
-/
namespace Netmux.ServerLoad
open ActionRuns RoundRobin ServerThreads TcpConnection SocketBuffer
open TcpServer (LoopId)

/-- The loops of a pool of this size: the base loop serves when there is no other. -/
def getAllEventLoop (pool : ℕ) : List LoopId :=
  if pool = 0 then [.base] else (List.range pool).map .io

theorem getAllEventLoop_pos (pool : ℕ) : 0 < (getAllEventLoop pool).length := by
  unfold getAllEventLoop
  split_ifs with h
  · exact Nat.one_pos
  · simpa using Nat.pos_of_ne_zero h

theorem getAllEventLoop_nodup (pool : ℕ) : (getAllEventLoop pool).Nodup := by
  unfold getAllEventLoop
  split_ifs
  · exact List.nodup_singleton _
  · exact List.nodup_range.map fun _ _ => LoopId.io.inj

/-- Nothing about the pool is different, no connection has another loop, and no
loop watches the acceptor that did not before. -/
structure SamePool (s u : Server) : Prop where
  loops : u.conns.map Conn.loop = s.conns.map Conn.loop
  started : u.started = s.started
  threadNum : u.threadNum = s.threadNum
  pool : u.pool = s.pool
  next : u.next = s.next
  accepts : ∀ loop, (u.loops loop).accepts = true → (s.loops loop).accepts = true

theorem SamePool.refl (s : Server) : SamePool s s := ⟨rfl, rfl, rfl, rfl, rfl, fun _ => id⟩

theorem SamePool.trans {s u v : Server} (h : SamePool s u) (k : SamePool u v) : SamePool s v :=
  ⟨k.loops.trans h.loops, k.started.trans h.started, k.threadNum.trans h.threadNum,
    k.pool.trans h.pool, k.next.trans h.next, fun loop ha => h.accepts loop (k.accepts loop ha)⟩

theorem samePool_setLoop {s : Server} {target : LoopId} {l : LoopState}
    (h : l.accepts = true → (s.loops target).accepts = true) : SamePool s (s.setLoop target l) := by
  refine ⟨rfl, rfl, rfl, rfl, rfl, fun loop ha => ?_⟩
  by_cases hl : loop = target
  · subst hl
    simp only [Server.setLoop, Function.update_self] at ha
    exact h ha
  · simpa only [Server.setLoop, Function.update_of_ne hl] using ha

theorem samePool_call (s : Server) (t : ThreadId) (calls : List Call) :
    SamePool s (s.call t calls) := ⟨rfl, rfl, rfl, rfl, rfl, fun _ => id⟩

theorem samePool_queueInLoop (s : Server) (target : LoopId) (functors : List Call) :
    SamePool s (s.queueInLoop target functors) := samePool_setLoop id

theorem samePool_postInLoop (s : Server) (t : ThreadId) (target : LoopId) (functor : Call) :
    SamePool s (s.postInLoop t target functor) := by
  unfold Server.postInLoop
  split_ifs
  · exact samePool_call ..
  · exact samePool_queueInLoop ..

/-- A connection is replaced by one on the same loop. -/
theorem samePool_set {s : Server} {conn : ℕ} {c d : Conn} (hc : s.conns[conn]? = some c)
    (hd : d.loop = c.loop) : SamePool s { s with conns := s.conns.set conn d } := by
  refine ⟨?_, rfl, rfl, rfl, rfl, fun _ => id⟩
  show (s.conns.set conn d).map Conn.loop = _
  apply List.ext_getElem?
  intro j
  obtain ⟨hlt, hget⟩ := List.getElem?_eq_some_iff.mp hc
  by_cases hj : conn = j
  · subst hj
    simp [hlt, hget, hd]
  · simp [List.getElem?_set_ne hj]

theorem samePool_settle {s : Server} {conn : ℕ} {c : Conn} (hc : s.conns[conn]? = some c)
    (t : ThreadId) (r : Site × List Effect) : SamePool s (s.settle t conn c r) := by
  have hset : SamePool s { s with
      conns := s.conns.set conn { c with connection := r.1.connection } } := samePool_set hc rfl
  refine (hset.trans ?_).trans ((samePool_queueInLoop _ c.loop _).trans (samePool_call _ t _))
  exact samePool_setLoop id

theorem samePool_withConn {s : Server} {conn : ℕ} {f : Conn → Server}
    (hf : ∀ c, s.conns[conn]? = some c → SamePool s (f c)) : SamePool s (s.withConn conn f) :=
  withConn_cases (.refl s) hf

theorem samePool_handleRead {s : Server} {conn : ℕ} {c : Conn} (hc : s.conns[conn]? = some c)
    (t : ThreadId) (readv : List ℕ → ReadvAnswer) :
    SamePool s (s.handleRead t conn c readv) := by
  unfold Server.handleRead
  split
  · next buffer n _ =>
      have hset : SamePool s (s.setConnection conn c { c.connection with inputBuffer := buffer }) :=
        samePool_set hc rfl
      rcases n with ⟨_ | n⟩ | errno
      · exact hset.trans (samePool_call ..)
      · exact hset.trans (samePool_call ..)
      · exact hset.trans (samePool_call ..)
  · exact .refl s

/-- Two calls touch the pool or the acceptor: `listen` and `newConnection`. -/
theorem samePool_execute (s : Server) (t : ThreadId) (kernel : Kernel) {head : Call}
    (hlisten : head ≠ .listen) (hnew : ∀ sockfd, head ≠ .newConnection sockfd) :
    SamePool s (s.execute t kernel head) := by
  cases head with
  | listen => exact absurd rfl hlisten
  | newConnection sockfd => exact absurd rfl (hnew sockfd)
  | removeConnection conn => exact samePool_postInLoop ..
  | postEstablished conn => exact samePool_withConn fun c _ => samePool_postInLoop ..
  | removeConnectionInLoop conn =>
      refine samePool_withConn fun c _ => ?_
      have herase : SamePool s (s.eraseConnection conn c) := ⟨rfl, rfl, rfl, rfl, rfl, fun _ => id⟩
      exact herase.trans (samePool_queueInLoop ..)
  | connectEstablished conn | connectDestroyed conn | sendInLoop conn data | shutdownInLoop conn
  | handleClose conn | handleError conn => exact samePool_withConn fun c hc => samePool_settle hc ..
  | handleRead conn => exact samePool_withConn fun c hc => samePool_handleRead hc ..
  | handleWrite conn =>
      refine samePool_withConn fun c hc => ?_
      unfold Server.handleWrite
      split
      · exact samePool_settle hc ..
      · exact .refl s
  | callback callback held =>
      dsimp only [Server.execute]
      split_ifs
      · exact samePool_call ..
      · exact .refl s
  | closeCallback conn held =>
      refine samePool_withConn fun c _ => ?_
      split_ifs
      · exact samePool_call ..
      · exact samePool_call ..
      · exact .refl s
  | userCode => exact .refl s

theorem samePool_initThreads (s : Server) (t : ThreadId) (first : ℕ) :
    SamePool s (s.initThreads t first) := by
  have hfold : ∀ (indices : List ℕ) (calls : List Call) (s : Server),
      SamePool s (indices.foldl (fun s i => s.call (.loop (.io i)) calls) s) := by
    intro indices calls
    induction indices with
    | nil => exact .refl
    | cons i indices ih => exact fun s => (samePool_call ..).trans (ih _)
  unfold Server.initThreads
  dsimp only
  split_ifs
  · exact samePool_call ..
  · exact hfold ..
  · exact .refl s

theorem samePool_postDestroyed (conns : List ℕ) (s : Server) (t : ThreadId) :
    SamePool s (s.postDestroyed t conns) := by
  unfold Server.postDestroyed
  induction conns generalizing s with
  | nil => exact .refl s
  | cons i conns ih =>
      rw [List.foldl_cons]
      exact (samePool_withConn fun c _ => samePool_postInLoop ..).trans (ih _)

theorem samePool_destroy (s : Server) (t : ThreadId) : SamePool s (s.destroy t) := by
  have hcleared : ∀ v : Server, SamePool v { v with
      connections := fun _ => none
      destroyed := true } := fun _ => ⟨rfl, rfl, rfl, rfl, rfl, fun _ => id⟩
  refine (samePool_postDestroyed s.tabled s t).trans (SamePool.trans ?_ (hcleared _))
  exact samePool_setLoop nofun

/-- The counter and the pool after a start. -/
def poolStarted (s : Server) : Server :=
  { s with
    started := s.started + 1
    pool := if s.started = 0 then s.pool + s.threadNum else s.pool }

/-- What a step does to the pool and to the acceptor's channel. -/
inductive PoolStep (s u : Server) : Action → Prop
  | same {a : Action} : SamePool s u → PoolStep s u a
  | start (t : ThreadId) : SamePool (poolStarted s) u → PoolStep s u (.start t)
  | listen {t : ThreadId} {kernel : Kernel} {calls : List Call} : s.calls t = .listen :: calls →
      u = (s.made t .listen calls).setAccepts true → PoolStep s u (.exec t kernel)
  | newConnection {t : ThreadId} {kernel : Kernel} {sockfd : ℕ} {calls : List Call} :
      s.calls t = .newConnection sockfd :: calls → SamePool (s.addConnection sockfd) u →
      PoolStep s u (.exec t kernel)

theorem samePool_start (s : Server) (t : ThreadId) : SamePool (poolStarted s) (s.start t) := by
  unfold poolStarted Server.start
  split_ifs
  · exact (samePool_postInLoop ..).trans (samePool_initThreads ..)
  · exact .refl _

theorem step_pool {s u : Server} {a : Action} (ht : step s a = some u) : PoolStep s u a := by
  cases a with
  | poll target events =>
      simp only [step, Option.ite_none_right_eq_some, Option.some.injEq] at ht
      obtain ⟨-, rfl⟩ := ht
      exact .same (samePool_call ..)
  | swap target =>
      simp only [step, Option.ite_none_right_eq_some, Option.some.injEq] at ht
      obtain ⟨-, rfl⟩ := ht
      exact .same (samePool_setLoop id)
  | next target =>
      simp only [step] at ht
      split at ht
      · next functor batch _ _ =>
          cases ht
          have hbatch : SamePool s (s.setLoop target { s.loops target with batch := batch }) :=
            samePool_setLoop id
          exact .same (hbatch.trans (samePool_call ..))
      · cases ht
  | exec t kernel =>
      simp only [step] at ht
      split at ht
      · cases ht
      · cases ht
      · next head calls _ hcalls =>
          cases ht
          by_cases hlisten : head = .listen
          · subst hlisten
            exact .listen hcalls rfl
          · by_cases hnew : ∃ sockfd, head = .newConnection sockfd
            · obtain ⟨sockfd, rfl⟩ := hnew
              have hadded : SamePool (s.addConnection sockfd)
                  ((s.made t (.newConnection sockfd) calls).addConnection sockfd) :=
                ⟨rfl, rfl, rfl, rfl, rfl, fun _ => id⟩
              exact .newConnection hcalls (hadded.trans (samePool_call ..))
            · have hmade : SamePool s (s.made t head calls) :=
                ⟨rfl, rfl, rfl, rfl, rfl, fun _ => id⟩
              exact .same (hmade.trans (samePool_execute _ t kernel hlisten
                fun sockfd h => hnew ⟨sockfd, h⟩))
  | leave t =>
      simp only [step] at ht
      split at ht
      · cases ht
        exact .same ⟨rfl, rfl, rfl, rfl, rfl, fun _ => id⟩
      · cases ht
  | send t conn buf =>
      simp only [step, Option.ite_none_right_eq_some, Option.some.injEq] at ht
      obtain ⟨-, rfl⟩ := ht
      refine .same (samePool_withConn fun c _ => ?_)
      split_ifs
      · exact samePool_postInLoop ..
      · exact .refl s
  | shutdown t conn =>
      simp only [step, Option.ite_none_right_eq_some, Option.some.injEq] at ht
      obtain ⟨-, rfl⟩ := ht
      refine .same (samePool_withConn fun c hc => ?_)
      split_ifs
      · have hset : SamePool s (s.setConnection conn c (c.connection.setState .kDisconnecting)) :=
          samePool_set hc rfl
        exact hset.trans (samePool_postInLoop ..)
      · exact .refl s
  | start t =>
      simp only [step, Option.ite_none_right_eq_some, Option.some.injEq] at ht
      obtain ⟨-, rfl⟩ := ht
      exact .start t (samePool_start s t)
  | destroy t =>
      simp only [step, Option.ite_none_right_eq_some, Option.some.injEq] at ht
      obtain ⟨-, rfl⟩ := ht
      exact .same (samePool_destroy s t)
  | setCallback callback =>
      cases ht
      exact .same ⟨rfl, rfl, rfl, rfl, rfl, fun _ => id⟩
  | useInput conn left | setConnectionCallback conn | setMessageCallback conn
  | setWriteCompleteCallback conn | setHighWaterMarkCallback conn mark | setCloseCallback conn =>
      cases ht
      exact .same (samePool_withConn fun c hc => samePool_set hc rfl)

theorem add_one_ne_self (n : BitVec 32) : n + 1 ≠ n := by
  bv_omega

/-- A start counts itself. -/
theorem SamePool.not_start {s u : Server} {a : Action} (k : SamePool s u)
    (ht : step s a = some u) (t : ThreadId) : a ≠ .start t := by
  rintro rfl
  simp only [step, Option.ite_none_right_eq_some, Option.some.injEq] at ht
  obtain ⟨-, rfl⟩ := ht
  have hstarted := (samePool_start s t).started
  rw [k.started] at hstarted
  exact add_one_ne_self _ hstarted.symm

/-- Before the first start nothing is accepted; after it the pool is complete, and
the connections have had the loops' turns. -/
structure InTurn (s : Server) : Prop where
  idle : s.started = 0 → s.conns = [] ∧ s.next = 0 ∧ s.pool = 0 ∧
    (∀ loop, (s.loops loop).accepts = false) ∧
    ∀ t call, s.Pending t call → call ≠ .listen ∧ ∀ sockfd, call ≠ .newConnection sockfd
  pool : s.started ≠ 0 → s.pool = s.threadNum
  next : s.next = s.conns.length % (getAllEventLoop s.threadNum).length
  turns : s.conns.map Conn.loop = turns (getAllEventLoop_pos s.threadNum) 0 s.conns.length

theorem InTurn.length {s : Server} (h : InTurn s) (hpool : s.started ≠ 0) :
    s.getNextLoop.1 = turn (getAllEventLoop_pos s.threadNum) s.conns.length ∧
      s.getNextLoop.2 = (s.conns.length + 1) % (getAllEventLoop s.threadNum).length := by
  have hnext := h.next
  unfold Server.getNextLoop turn
  rw [h.pool hpool]
  by_cases hzero : s.threadNum = 0
  · simp [hzero, getAllEventLoop, Nat.mod_one, hnext]
  · rw [if_neg hzero]
    simp [getAllEventLoop, hzero, hnext, Nat.add_mod]

/-- Nothing is accepted before the first start. -/
theorem InTurn.started {s : Server} (h : InTurn s) {t : ThreadId} {call : Call}
    (hcall : s.Pending t call) (hkind : call = .listen ∨ ∃ sockfd, call = .newConnection sockfd) :
    s.started ≠ 0 := by
  intro hzero
  obtain ⟨-, -, -, -, hnone⟩ := h.idle hzero
  obtain ⟨hlisten, hnew⟩ := hnone t call hcall
  rcases hkind with rfl | ⟨sockfd, rfl⟩
  · exact hlisten rfl
  · exact hnew sockfd rfl

/-- No call brings either of the two. -/
theorem spawns_other {s : Server} {t u : ThreadId} {kernel : Kernel} {head call : Call}
    (h : Spawns s t kernel head u call) :
    call ≠ .listen ∧ ∀ sockfd, call ≠ .newConnection sockfd := by
  cases h with
  | calls _ _ hmem =>
      obtain ⟨effect, -, hcall⟩ := List.mem_flatMap.mp hmem
      cases effect with
      | connectionCallback _ | messageCallback | closeCallback =>
          rw [List.mem_singleton.mp hcall]
          exact ⟨nofun, nofun⟩
      | queueWriteComplete | queueHighWaterMark _ | queueSendInLoop _ | queueShutdownInLoop
      | accepted _ | shutdownWrite => cases hcall
  | queues _ _ hmem =>
      obtain ⟨effect, -, hcall⟩ := List.mem_flatMap.mp hmem
      cases effect with
      | queueWriteComplete | queueHighWaterMark _ =>
          rw [List.mem_singleton.mp hcall]
          exact ⟨nofun, nofun⟩
      | connectionCallback _ | messageCallback | closeCallback | queueSendInLoop _
      | queueShutdownInLoop | accepted _ | shutdownWrite => cases hcall
  | newConnection _ | postEstablished _ | removeConnection _ | removeConnectionInLoop _
  | readClose _ | readError _ | message _ | callback _ | close _ | userClose _ =>
      exact ⟨nofun, nofun⟩

/-- A server that has not been started brings neither of the two calls, unless it
is started. -/
theorem InTurn.brings {s : Server} (h : InTurn s) (hzero : s.started = 0) {a : Action}
    (ha : ∀ t, a ≠ .start t) {t : ThreadId} {call : Call} (hb : Brings s a t call) :
    call ≠ .listen ∧ ∀ sockfd, call ≠ .newConnection sockfd := by
  obtain ⟨-, -, -, haccepts, -⟩ := h.idle hzero
  cases hb with
  | @poll loop events event call _ hwatched hcall =>
      cases event with
      | accept sockfd => exact absurd hwatched (by simp [Server.watches, haccepts])
      | channel conn handlers =>
          obtain ⟨handler, -, rfl⟩ := List.mem_map.mp hcall
          cases handler with
          | read | write | close | error => exact ⟨nofun, nofun⟩
  | exec _ hspawns => exact spawns_other hspawns
  | send _ _ _ | shutdown _ _ | destroy _ _ => exact ⟨nofun, nofun⟩
  | listen t => exact absurd rfl (ha t)
  | threadInit t _ _ => exact absurd rfl (ha t)

/-- What holds of a server holds of one with the same pool and connections, if
nothing forbidden has come up before its start. -/
theorem InTurn.same {s u : Server} (h : InTurn s) (k : SamePool s u)
    (hpending : s.started = 0 → ∀ t call, u.Pending t call →
      call ≠ .listen ∧ ∀ sockfd, call ≠ .newConnection sockfd) : InTurn u := by
  have hlength : u.conns.length = s.conns.length := by
    simpa using congrArg List.length k.loops
  constructor
  · intro hzero
    rw [k.started] at hzero
    obtain ⟨hconns, hnext, hpool, haccepts, -⟩ := h.idle hzero
    refine ⟨?_, k.next.trans hnext, k.pool.trans hpool, fun loop => ?_, hpending hzero⟩
    · exact List.eq_nil_of_length_eq_zero (by simp [hlength, hconns])
    · by_contra hwatched
      have hold := k.accepts loop (Bool.eq_true_of_not_eq_false hwatched)
      simp [haccepts] at hold
  · rw [k.started, k.pool, k.threadNum]
    exact h.pool
  · rw [k.next, k.threadNum, hlength]
    exact h.next
  · simp only [k.loops, k.threadNum, hlength]
    exact h.turns

theorem InTurn.addConnection {s : Server} (h : InTurn s) (hstarted : s.started ≠ 0) (sockfd : ℕ) :
    InTurn (s.addConnection sockfd) := by
  obtain ⟨hloop, hnext⟩ := h.length hstarted
  have hlength : (s.addConnection sockfd).conns.length = s.conns.length + 1 := List.length_append
  refine ⟨fun hzero => absurd hzero hstarted, h.pool, ?_, ?_⟩
  · rw [hlength]
    exact hnext
  · rw [hlength, turns_add]
    show (s.conns ++ [s.accepted sockfd]).map Conn.loop = _
    rw [List.map_append, h.turns]
    congr 1
    simp only [List.map_singleton, RoundRobin.turns, Nat.zero_add, List.range'_one]
    exact congrArg ([·]) hloop

theorem InTurn.start {s : Server} (h : InTurn s) (hwrap : s.started + 1 ≠ 0) :
    InTurn (poolStarted s) := by
  refine ⟨fun hzero => absurd hzero hwrap, fun _ => ?_, h.next, h.turns⟩
  show (if s.started = 0 then s.pool + s.threadNum else s.pool) = s.threadNum
  split_ifs with hzero
  · obtain ⟨-, -, hpool, -⟩ := h.idle hzero
    rw [hpool, Nat.zero_add]
  · exact h.pool hzero

/-- The counter of the starts does not wrap around. -/
def NoWrap (s : Server) : Action → Prop
  | .start _ => s.started + 1 ≠ 0
  | _ => True

def isStart : Action → Bool
  | .start _ => true
  | _ => false

theorem step_started {s u : Server} {a : Action} (ht : step s a = some u) :
    u.started.toNat ≤ s.started.toNat + if isStart a = true then 1 else 0 := by
  cases step_pool ht with
  | same k =>
      rw [k.started]
      exact Nat.le_add_right ..
  | start t k =>
      rw [k.started]
      show (s.started + 1).toNat ≤ s.started.toNat + 1
      rw [BitVec.toNat_add]
      exact Nat.mod_le ..
  | listen _ hu =>
      subst hu
      exact Nat.le_add_right ..
  | newConnection _ k =>
      rw [k.started]
      exact Nat.le_add_right ..

/-- Fewer than 2^32 starts are counted right. -/
theorem noWrap_of_count (name ipPort : String) (threadNum : ℕ) (callbacks : Callback → Bool)
    {actions : List Action} (h : actions.countP isStart < 2 ^ 32) :
    Meets step NoWrap (Server.create name ipPort threadNum callbacks) actions := by
  have hmeets : Meets step (fun s a => isStart a = true → s.started.toNat < 2 ^ 32 - 1)
      (Server.create name ipPort threadNum callbacks) actions := by
    apply meets_of_countP fun s a u ht => step_started ht
    show 0 + actions.countP isStart ≤ 2 ^ 32 - 1
    omega
  refine hmeets.imp (I := fun _ => True) (fun _ _ _ _ _ _ => trivial) (fun s a _ hlt => ?_) trivial
  cases a with
  | start t =>
      have hsmall := hlt rfl
      show s.started + 1 ≠ 0
      bv_omega
  | _ => trivial

theorem step_inTurn (s : Server) (a : Action) (u : Server) (h : InTurn s) (hwrap : NoWrap s a)
    (ht : step s a = some u) : InTurn u := by
  cases step_pool ht with
  | same k =>
      refine h.same k fun hzero t call hcall => ?_
      rcases step_pending ht hcall with hold | hbrings
      · exact (h.idle hzero).2.2.2.2 t call hold
      · exact h.brings hzero (k.not_start ht) hbrings
  | start t k => exact (h.start hwrap).same k fun hzero => absurd hzero hwrap
  | @listen t _ calls hcalls hu =>
      have hstarted : s.started ≠ 0 :=
        h.started (t := t) (.inl (hcalls ▸ List.mem_cons_self ..)) (.inl rfl)
      subst hu
      exact ⟨fun hzero => absurd hzero hstarted, h.pool, h.next, h.turns⟩
  | @newConnection t _ sockfd _ hcalls k =>
      have hstarted : s.started ≠ 0 :=
        h.started (t := t) (.inl (hcalls ▸ List.mem_cons_self ..)) (.inr ⟨sockfd, rfl⟩)
      exact (h.addConnection hstarted sockfd).same k fun hzero => absurd hzero hstarted

theorem create_inTurn (name ipPort : String) (threadNum : ℕ) (callbacks : Callback → Bool) :
    InTurn (Server.create name ipPort threadNum callbacks) := by
  refine ⟨fun _ => ⟨rfl, rfl, rfl, fun _ => rfl, ?_⟩, fun h => absurd rfl h, ?_, rfl⟩
  · rintro t call (hcall | ⟨loop, -, hmem⟩)
    · cases hcall
    · cases hmem
  · exact (Nat.zero_mod _).symm

/-- In every interleaving with fewer than 2^32 starts of the server, whatever else
its threads do, the connections have the loops of the pool in turn: no loop that
serves has two connections more than another. -/
theorem load_balanced (name ipPort : String) (threadNum : ℕ) (callbacks : Callback → Bool)
    {actions : List Action} (h : actions.countP isStart < 2 ^ 32) :
    Throughout step (fun s =>
        s.conns.map Conn.loop = turns (getAllEventLoop_pos s.threadNum) 0 s.conns.length ∧
          Fair (getAllEventLoop s.threadNum) (s.conns.map Conn.loop))
      (Server.create name ipPort threadNum callbacks) actions := by
  refine throughout_of_meets step_inTurn (fun s hs => ⟨hs.turns, ?_⟩)
    (create_inTurn name ipPort threadNum callbacks)
    (noWrap_of_count name ipPort threadNum callbacks h)
  rw [hs.turns]
  exact turns_fair _ (getAllEventLoop_nodup s.threadNum) 0 _

/-- Three clients of a server with two loops in its pool, which is started twice. -/
def threeClients : List Action :=
  [.start (.loop .base), .start (.user 0), .exec (.loop .base) .blocked,
    .poll .base [.accept 5, .accept 6, .accept 7]] ++
    List.replicate 6 (.exec (.loop .base) .blocked)

theorem load_balanced_threeClients : Throughout step (fun s =>
      s.conns.map Conn.loop = turns (getAllEventLoop_pos s.threadNum) 0 s.conns.length ∧
        Fair (getAllEventLoop s.threadNum) (s.conns.map Conn.loop))
    (Server.create "echoserver" "0.0.0.0:8888" 2 fun _ => true) threeClients :=
  load_balanced _ _ _ _ (by decide)

end Netmux.ServerLoad
