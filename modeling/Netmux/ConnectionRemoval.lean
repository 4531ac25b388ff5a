import Netmux.ActionRuns
import Netmux.TcpServer

/-!
# The removal of a closed connection

`handleClose` starts a chain that should erase the connection from the server's
table on the base loop and then queue `connectDestroyed` on the connection's
own. `removeConnection` posts itself instead of `removeConnectionInLoop`. On
the base loop's thread `postInLoop` calls it on the spot, so that thread never
gets to anything else; on another thread it is queued for the base loop and
ends there. The chain is always under way and never arrives.
-/
namespace Netmux.ConnectionRemoval
open ActionRuns SocketBuffer TcpConnection TcpServer

/-- The connection is gone: its name was erased once, and its destruction was
queued once, on its own loop. -/
def Removed (s : Server) (conn : ℕ) : Prop :=
  ∃ peer, s.conns[conn]? = some peer ∧ s.erased.count peer.connection.name = 1 ∧
    s.destroyQueued.count (peer.loop, conn) = 1

/-- Some further run completes the removal. -/
def RemovalEnds (s : Server) (conn : ℕ) : Prop := ∃ t, Reaches step s t ∧ Removed t conn

/-- No functor is queued and nothing is being called or dispatched. -/
def Quiescent (s : Server) : Prop := ∀ loop, (s.threads loop).work = []

/-- Any call but the two that the chain should arrive at. -/
def Harmless : Call → Prop
  | .removeConnectionInLoop _ | .connectDestroyed _ => False
  | _ => True

/-- Nothing was removed or will be, and the removal of every closed connection
is still to be called somewhere. -/
structure Stranded (s : Server) : Prop where
  harmless : ∀ loop, ∀ call ∈ (s.threads loop).work, Harmless call
  erased : s.erased = []
  queued : s.destroyQueued = []
  removing : ∀ conn ∈ s.closed, ∃ loop, .removeConnection conn ∈ (s.threads loop).work

theorem stranded_start (name ipPort : String) (threadNum : ℕ) :
    Stranded (Server.start name ipPort threadNum) where
  harmless := by
    intro loop call h
    cases h
  erased := rfl
  queued := rfl
  removing := by
    intro conn h
    cases h

/-- What a step may do to the work of the loops: no removal gets lost, only
harmless calls come in, and a connection closes together with its removal. -/
structure Spawns (s t : Server) : Prop where
  keeps : ∀ conn loop, .removeConnection conn ∈ (s.threads loop).work →
    ∃ loop, .removeConnection conn ∈ (t.threads loop).work
  adds : ∀ loop call, call ∈ (t.threads loop).work → call ∈ (s.threads loop).work ∨ Harmless call
  erased : t.erased = s.erased
  queued : t.destroyQueued = s.destroyQueued
  closed : ∀ conn ∈ s.closed, conn ∈ t.closed
  closes : ∀ conn ∈ t.closed, conn ∈ s.closed ∨
    ∃ loop, .removeConnection conn ∈ (t.threads loop).work

theorem Stranded.spawns {s t : Server} (h : Stranded s) (k : Spawns s t) : Stranded t := by
  constructor
  · intro loop call hcall
    rcases k.adds loop call hcall with hold | hnew
    · exact h.harmless loop call hold
    · exact hnew
  · rw [k.erased, h.erased]
  · rw [k.queued, h.queued]
  · intro conn hconn
    rcases k.closes conn hconn with hold | hnew
    · obtain ⟨loop, hloop⟩ := h.removing conn hold
      exact k.keeps conn loop hloop
    · exact hnew

theorem spawns_refl (s : Server) : Spawns s s :=
  ⟨fun _ loop h => ⟨loop, h⟩, fun _ _ => .inl, rfl, rfl, fun _ => id, fun _ => .inl⟩

theorem Spawns.trans {s t u : Server} (h : Spawns s t) (k : Spawns t u) : Spawns s u := by
  constructor
  · intro conn loop hs
    obtain ⟨loop', ht⟩ := h.keeps conn loop hs
    exact k.keeps conn loop' ht
  · intro loop call hu
    rcases k.adds loop call hu with ht | hnew
    · exact h.adds loop call ht
    · exact .inr hnew
  · rw [k.erased, h.erased]
  · rw [k.queued, h.queued]
  · exact fun conn hs => k.closed conn (h.closed conn hs)
  · intro conn hu
    rcases k.closes conn hu with ht | hnew
    · rcases h.closes conn ht with hs | ⟨loop, hloop⟩
      · exact .inl hs
      · exact .inr (k.keeps conn loop hloop)
    · exact .inr hnew

/-- A step of one thread that keeps the removals of its work. -/
theorem spawns_setThread (s : Server) (loop : LoopId) (l : LoopThread)
    (hkeep : ∀ conn, .removeConnection conn ∈ (s.threads loop).work →
      .removeConnection conn ∈ l.work)
    (hadd : ∀ call ∈ l.work, call ∈ (s.threads loop).work ∨ Harmless call) :
    Spawns s (s.setThread loop l) := by
  refine ⟨?_, ?_, rfl, rfl, fun _ => id, fun _ => .inl⟩
  · intro conn loop' hs
    refine ⟨loop', ?_⟩
    rcases eq_or_ne loop' loop with rfl | hne
    · simpa [Server.setThread] using hkeep conn hs
    · simpa [Server.setThread, hne] using hs
  · intro loop' call ht
    rcases eq_or_ne loop' loop with rfl | hne
    · exact hadd call (by simpa [Server.setThread] using ht)
    · exact .inl (by simpa [Server.setThread, hne] using ht)

theorem spawns_queueInLoop (s : Server) (loop : LoopId) {functor : Call}
    (hf : Harmless functor) : Spawns s (s.queueInLoop loop functor) := by
  apply spawns_setThread
  · intro conn hconn
    simp only [LoopThread.work, List.mem_append] at hconn ⊢
    exact hconn.imp_right .inl
  · intro call hcall
    simp only [LoopThread.work, List.mem_append, List.mem_singleton] at hcall ⊢
    rcases hcall with h | h | rfl
    · exact .inl (.inl h)
    · exact .inl (.inr h)
    · exact .inr hf

theorem spawns_postInLoop (s : Server) (current loop : LoopId) {functor : Call}
    (hf : Harmless functor) : Spawns s (s.postInLoop current loop functor) := by
  unfold Server.postInLoop
  split_ifs
  · apply spawns_setThread
    · intro conn hconn
      exact List.mem_cons_of_mem _ hconn
    · intro call hcall
      rcases List.mem_cons.mp hcall with rfl | h
      · exact .inr hf
      · exact .inl h
  · exact spawns_queueInLoop s loop hf

/-- What is posted is to be called afterwards. -/
theorem posted (s : Server) (current loop : LoopId) (functor : Call) :
    functor ∈ ((s.postInLoop current loop functor).threads loop).work := by
  unfold Server.postInLoop Server.queueInLoop Server.setThread
  split_ifs <;> simp [LoopThread.work]

theorem harmless_callsOf {conn : ℕ} {effect : Effect} {call : Call}
    (h : call ∈ callsOf conn effect) : Harmless call := by
  cases effect <;> simp_all [callsOf, Harmless]

theorem harmless_functorsOf {conn : ℕ} {effect : Effect} {call : Call}
    (h : call ∈ functorsOf conn effect) : Harmless call := by
  cases effect <;> simp_all [functorsOf, Harmless]

/-- A method of a connection, whatever it has done. -/
theorem spawns_settle (s : Server) (conn : ℕ) (peer : Peer) (r : Site × List Effect) :
    Spawns s (s.settle conn peer r) := by
  have hthread := spawns_setThread s peer.loop { s.threads peer.loop with
      poller := r.1.poller
      calls := r.2.flatMap (callsOf conn) ++ (s.threads peer.loop).calls
      pendingFunctors := (s.threads peer.loop).pendingFunctors ++ r.2.flatMap (functorsOf conn) }
    (fun conn hconn => by
      simp only [LoopThread.work, List.mem_append] at hconn ⊢
      tauto)
    (fun call hcall => by
      simp only [LoopThread.work, List.mem_append, List.mem_flatMap] at hcall ⊢
      rcases hcall with ((⟨e, -, he⟩ | h) | h) | h | ⟨e, -, he⟩
      · exact .inr (harmless_callsOf he)
      · exact .inl (.inl (.inl h))
      · exact .inl (.inl (.inr h))
      · exact .inl (.inr h)
      · exact .inr (harmless_functorsOf he))
  refine ⟨hthread.keeps, hthread.adds, rfl, rfl, ?_, ?_⟩
  · intro c hc
    simp only [Server.settle, Server.setThread]
    split_ifs
    · exact List.mem_cons_of_mem _ hc
    · exact hc
  intro c hc
  by_cases hclose : .closeCallback ∈ r.2
  · have hmem : c = conn ∨ c ∈ s.closed := by
      simpa [Server.settle, Server.setThread, hclose] using hc
    rcases hmem with rfl | hold
    · refine .inr ⟨peer.loop, ?_⟩
      simp only [Server.settle, Server.setThread, Function.update_self, LoopThread.work,
        List.mem_append, List.mem_flatMap]
      exact .inl (.inl (.inl ⟨_, hclose, List.mem_singleton_self _⟩))
    · exact .inl hold
  · exact .inl (by simpa [Server.settle, Server.setThread, hclose] using hc)

theorem spawns_settleConnection (s : Server) (conn : ℕ) (peer : Peer)
    (r : Connection × List Effect) : Spawns s (s.settleConnection conn peer r) :=
  spawns_settle s conn peer _

theorem spawns_newConnection (s : Server) (sockfd address : ℕ) :
    Spawns s (s.newConnection sockfd address) := by
  unfold Server.newConnection
  refine Spawns.trans ?_ (spawns_postInLoop _ _ _ trivial)
  exact ⟨fun _ loop h => ⟨loop, h⟩, fun _ _ => .inl, rfl, rfl, fun _ => id, fun _ => .inl⟩

theorem spawns_handle {s t : Server} {conn : ℕ} {peer : Peer} {handler : Handler}
    (h : s.handle conn peer handler = some t) : Spawns s t := by
  cases handler with
  | handleRead readv =>
      obtain ⟨r, -, rfl⟩ := Option.map_eq_some_iff.mp h
      exact spawns_settle s conn peer r
  | handleWrite write =>
      obtain ⟨r, -, rfl⟩ := Option.map_eq_some_iff.mp h
      exact spawns_settleConnection s conn peer r
  | handleClose =>
      cases h
      exact spawns_settle s conn peer _
  | handleError =>
      cases h
      exact spawns_settle s conn peer _

/-- A harmless call other than a removal. -/
theorem spawns_execute {s t : Server} {current : LoopId} {write : Bytes → WriteAnswer}
    {call : Call} (hc : Harmless call) (h : s.execute current write call = some t) :
    Spawns s t := by
  cases call with
  | connectEstablished conn =>
      obtain ⟨peer, -, rfl⟩ := Option.map_eq_some_iff.mp h
      exact spawns_settle s conn peer _
  | removeConnection conn =>
      cases h
      exact spawns_postInLoop s current .base trivial
  | sendInLoop conn data =>
      obtain ⟨peer, -, rfl⟩ := Option.map_eq_some_iff.mp h
      exact spawns_settleConnection s conn peer _
  | shutdownInLoop conn =>
      obtain ⟨peer, -, rfl⟩ := Option.map_eq_some_iff.mp h
      exact spawns_settleConnection s conn peer _
  | user =>
      cases h
      exact spawns_refl s
  | removeConnectionInLoop conn => exact hc.elim
  | connectDestroyed conn => exact hc.elim

/-- Without its topmost call a thread has the rest of its work. -/
theorem mem_work_of_pop (s : Server) {loop : LoopId} {call : Call} {calls : List Call}
    (hcalls : (s.threads loop).calls = call :: calls) (loop' : LoopId) (k : Call) :
    k ∈ (s.threads loop').work ↔ (loop' = loop ∧ k = call) ∨
      k ∈ ((s.setThread loop { s.threads loop with calls := calls }).threads loop').work := by
  rcases eq_or_ne loop' loop with rfl | hne
  · simp [Server.setThread, LoopThread.work, hcalls]
  · simp [Server.setThread, hne]

/-- Taking a call off the stack and executing it: a removal posts itself. -/
theorem spawns_exec {s t : Server} {loop : LoopId} {write : Bytes → WriteAnswer} {call : Call}
    {calls : List Call} (hcalls : (s.threads loop).calls = call :: calls) (hc : Harmless call)
    (h : (s.setThread loop { s.threads loop with calls := calls }).execute loop write call =
      some t) : Spawns s t := by
  have hrest := spawns_execute hc h
  constructor
  · intro conn loop' hs
    rcases (mem_work_of_pop s hcalls loop' _).mp hs with ⟨-, rfl⟩ | hleft
    · cases h
      exact ⟨.base, posted _ loop .base _⟩
    · exact hrest.keeps conn loop' hleft
  · intro loop' k ht
    rcases hrest.adds loop' k ht with hold | hnew
    · exact .inl ((mem_work_of_pop s hcalls loop' k).mpr (.inr hold))
    · exact .inr hnew
  · exact hrest.erased
  · exact hrest.queued
  · exact hrest.closed
  · exact hrest.closes

/-- A thread that goes on to other functors keeps its work. -/
theorem spawns_work (s : Server) {loop : LoopId} {l : LoopThread}
    (h : l.work = (s.threads loop).work) : Spawns s (s.setThread loop l) :=
  spawns_setThread s loop l (fun _ hconn => h ▸ hconn) fun _ hcall => .inl (h ▸ hcall)

theorem work_swap {l : LoopThread} (h : l.betweenFunctors = true) :
    ({ l with batch := l.pendingFunctors, pendingFunctors := [] } : LoopThread).work = l.work := by
  obtain ⟨poller, calls, batch, pending⟩ := l
  cases calls <;> cases batch <;> simp_all [LoopThread.betweenFunctors, LoopThread.work]

theorem spawns_step {s t : Server} {a : TcpServer.Action} (h : Stranded s)
    (ht : step s a = some t) : Spawns s t := by
  cases a with
  | newConnection sockfd address =>
      simp only [step, Option.ite_none_right_eq_some, Option.some.injEq] at ht
      exact ht.2 ▸ spawns_newConnection s sockfd address
  | dispatch conn handler =>
      simp only [step, Option.bind_eq_some_iff, Option.ite_none_right_eq_some] at ht
      obtain ⟨peer, -, -, hhandle⟩ := ht
      exact spawns_handle hhandle
  | swap loop =>
      simp only [step, Option.ite_none_right_eq_some, Option.some.injEq] at ht
      exact ht.2 ▸ spawns_work s (work_swap ht.1)
  | next loop =>
      simp only [step] at ht
      split at ht
      · next functor batch hcalls hbatch =>
          cases ht
          apply spawns_work s
          simp [LoopThread.work, hcalls, hbatch]
      · cases ht
  | exec loop write =>
      simp only [step] at ht
      cases hcalls : (s.threads loop).calls with
      | nil => simp [hcalls] at ht
      | cons call calls =>
          simp only [hcalls] at ht
          have hc : Harmless call :=
            h.harmless loop call (by simp [LoopThread.work, hcalls])
          exact spawns_exec hcalls hc ht
  | queueUser loop =>
      cases ht
      exact spawns_queueInLoop s loop trivial
  | useInput conn left =>
      obtain ⟨peer, -, rfl⟩ := Option.map_eq_some_iff.mp ht
      exact spawns_settle s conn peer _
  | send conn inLoopThread buf write =>
      obtain ⟨peer, -, rfl⟩ := Option.map_eq_some_iff.mp ht
      exact spawns_settleConnection s conn peer _
  | shutdown conn inLoopThread =>
      obtain ⟨peer, -, rfl⟩ := Option.map_eq_some_iff.mp ht
      exact spawns_settleConnection s conn peer _

/-- A closed connection is not removed, and its removal is still to be called. -/
theorem Stranded.closed {s : Server} (h : Stranded s) {conn : ℕ} (hc : conn ∈ s.closed) :
    ¬ Removed s conn ∧ ¬ Quiescent s := by
  constructor
  · rintro ⟨peer, -, hcount, -⟩
    simp [h.erased] at hcount
  · intro hq
    obtain ⟨loop, hloop⟩ := h.removing conn hc
    rw [hq loop] at hloop
    cases hloop

/-- Strandedness and a close are for good. -/
theorem stranded_step (conn : ℕ) (s : Server) (a : TcpServer.Action) (t : Server)
    (h : Stranded s ∧ conn ∈ s.closed) (ht : step s a = some t) :
    Stranded t ∧ conn ∈ t.closed :=
  ⟨h.1.spawns (spawns_step h.1 ht), (spawns_step h.1 ht).closed conn h.2⟩

theorem Stranded.never {s : Server} (h : Stranded s) {conn : ℕ} (hc : conn ∈ s.closed) :
    ¬ RemovalEnds s conn ∧ ∀ t, Reaches step s t → ¬ Quiescent t := by
  have hlater : ∀ t, Reaches step s t → ¬ Removed t conn ∧ ¬ Quiescent t := by
    intro t ht
    obtain ⟨hs, hconn⟩ := ht.preserves (stranded_step conn) ⟨h, hc⟩
    exact hs.closed hconn
  constructor
  · rintro ⟨t, ht, hremoved⟩
    exact (hlater t ht).1 hremoved
  · exact fun t ht => (hlater t ht).2

theorem reaches_stranded {name ipPort : String} {threadNum : ℕ} {s : Server}
    (h : Reaches step (Server.start name ipPort threadNum) s) : Stranded s :=
  h.preserves (fun _ _ _ hs ht => hs.spawns (spawns_step hs ht))
    (stranded_start name ipPort threadNum)

/-- For every server, every reachable state and every connection that has been
closed there, no further run completes the removal, and the loops never come
to rest. -/
theorem removal_never_ends {name ipPort : String} {threadNum : ℕ} {s : Server}
    (h : Reaches step (Server.start name ipPort threadNum) s) {conn : ℕ} (hc : conn ∈ s.closed) :
    ¬ RemovalEnds s conn ∧ ∀ t, Reaches step s t → ¬ Quiescent t :=
  (reaches_stranded h).never hc

/-- One connection on a pool of one loop, closed by its first dispatch. -/
def closeFirst : List TcpServer.Action :=
  [.newConnection 5 0, .swap (.io 0), .next (.io 0), .exec (.io 0) fun _ => .accepted 0,
    .dispatch 0 .handleClose]

theorem closeFirst_closes :
    ∃ s ∈ run step (Server.start "server" "127.0.0.1:80" 1) closeFirst, 0 ∈ s.closed := by
  decide +kernel

theorem removal_never_ends_closeFirst :
    ∃ s, run step (Server.start "server" "127.0.0.1:80" 1) closeFirst = some s ∧
      ¬ RemovalEnds s 0 ∧ ∀ t, Reaches step s t → ¬ Quiescent t := by
  obtain ⟨s, hs, hc⟩ := closeFirst_closes
  exact ⟨s, hs, removal_never_ends ⟨_, hs⟩ hc⟩

/-- The connection has been closed and no run removes it. -/
theorem closeFirst_not_removed :
    ∃ s ∈ run step (Server.start "server" "127.0.0.1:80" 1) closeFirst,
      0 ∈ s.closed ∧ ¬ RemovalEnds s 0 := by
  obtain ⟨s, hs, hc⟩ := closeFirst_closes
  exact ⟨s, hs, hc, ((reaches_stranded ⟨_, hs⟩).never hc).1⟩

end Netmux.ConnectionRemoval
